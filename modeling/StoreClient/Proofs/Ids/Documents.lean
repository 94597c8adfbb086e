import StoreClient.Proofs.Ids.Runs

/-! # Settings in documents

Spans of time are written in whole milliseconds, as many as a word can say (`Duration.cut`).
Settings that are written and read back are cut so (`IdSettings.ofJson_toJson`), and a generator
does not see the difference, since it reads the same milliseconds of the epoch and of the drift
(`IdGenerator.pollAll_cut`).

What a document says of a layout is a `LayoutEntry`, which may be no layout.  The document is read
exactly when the entry makes one (`IdLayout.ofJson_eq_ok_iff`). -/

namespace StoreClient

/-! ### Whole milliseconds -/

namespace Duration

/-- The span in whole milliseconds, as many as a word can say. -/
def cut (d : Duration) : Duration := .ofMillis d.cappedMillis

theorem cappedMillis_cut (d : Duration) : d.cut.cappedMillis = d.cappedMillis :=
  cappedMillis_ofMillis d.cappedMillis_le

theorem cut_ofMillis {m : Nat} (h : m ≤ wordMax) : (ofMillis m).cut = ofMillis m := by
  rw [cut, cappedMillis_ofMillis h]

end Duration

def IdLayout.cut (l : IdLayout) : IdLayout := l.withEpoch l.epoch.cut

def IdSettings.cut (c : IdSettings) : IdSettings where
  layout := c.layout.cut
  maxClockDrift := c.maxClockDrift.cut
  maxWait := c.maxWait.cut

/-! ### Polls do not see the cut -/

namespace IdLayout

theorem epochMillis_cut (l : IdLayout) : l.cut.epochMillis = l.epochMillis :=
  l.epoch.cappedMillis_cut

theorem tickOf_cut (l : IdLayout) (now : UInt64) : l.cut.tickOf now = l.tickOf now := by
  unfold tickOf
  rw [epochMillis_cut]
  rfl

theorem waitFor_cut (l : IdLayout) (tick : Nat) (now : UInt64) :
    l.cut.waitFor tick now = l.waitFor tick now := by
  unfold waitFor
  rw [epochMillis_cut]
  rfl

end IdLayout

namespace IdSettings

theorem tooFarBehind_cut (c : IdSettings) (last : Issued) (now : UInt64) :
    c.cut.tooFarBehind last now = c.tooFarBehind last now := by
  unfold tooFarBehind
  rw [cut, Duration.cappedMillis_cut]

-- for any two settings: at the cut ones the kernel would unfold the waits to compare them
theorem defer_of_waitFor {c d : IdSettings} {tick : Nat} {r : Reading} (h : Option Issued)
    (hwait : d.layout.waitFor tick r.now = c.layout.waitFor tick r.now) :
    d.defer tick r h = c.defer tick r h := by
  unfold defer
  rw [hwait]

theorem defer_cut (c : IdSettings) (tick : Nat) (r : Reading) (h : Option Issued) :
    c.cut.defer tick r h = c.defer tick r h :=
  defer_of_waitFor h (c.layout.waitFor_cut tick r.now)

theorem issue_cut (c : IdSettings) (tick s : Nat) (r : Reading) (hw : Nat) :
    c.cut.issue tick s r hw = c.issue tick s r hw := rfl

theorem advance_cut (c : IdSettings) (h : Option Issued) (r : Reading) (tick : Nat) :
    c.cut.advance h r tick = c.advance h r tick := by
  unfold advance
  simp only [tooFarBehind_cut, defer_cut, issue_cut]
  rfl

end IdSettings

namespace IdGenerator

def cut (g : IdGenerator) : IdGenerator := { g with settings := g.settings.cut }

theorem poll_cut (g : IdGenerator) (r : Reading) :
    g.cut.poll r = ((g.poll r).1, (g.poll r).2.cut) := by
  have hticks : g.cut.settings.layout.tickOf r.now = g.settings.layout.tickOf r.now :=
    g.settings.layout.tickOf_cut r.now
  cases htick : g.settings.layout.tickOf r.now with
  | error e => rw [poll_of_noTick htick, poll_of_noTick (hticks.trans htick)]
  | ok tick =>
    cases hlock : g.poisoned with
    | true => rw [poll_of_poisoned htick hlock, poll_of_poisoned (hticks.trans htick) hlock]
    | false =>
      have hadvance : g.cut.settings.advance g.cut.history r tick =
          g.settings.advance g.history r tick := g.settings.advance_cut g.history r tick
      rw [poll_of_free htick hlock, poll_of_free (hticks.trans htick) hlock, hadvance]
      cases g.settings.advance g.history r tick with
      | ok answer => rfl
      | error failure =>
        cases failure with
        | error e => rfl
        | panic p => rfl

theorem pollAll_cut (g : IdGenerator) (rs : List Reading) :
    g.cut.pollAll rs = ((g.pollAll rs).1, (g.pollAll rs).2.cut) := by
  induction rs generalizing g with
  | nil => rfl
  | cons r rs ih => rw [pollAll_cons, poll_cut, ih, pollAll_cons]

end IdGenerator

/-! ### Values -/

theorem TickUnit.ofJson_key (u : TickUnit) : TickUnit.ofJson (.text u.key) = .ok u := by
  cases u with
  | millis => rfl
  | seconds => rfl

theorem TickUnit.ofJson_cases (v : JsonValue) :
    TickUnit.ofJson v = .error .malformed ∨ ∃ u, TickUnit.ofJson v = .ok u := by
  have hkey : ∀ s, ofKey s = .error .malformed ∨ ∃ u, ofKey s = .ok u := by
    intro s
    unfold ofKey
    split
    · exact .inr ⟨_, rfl⟩
    · exact .inr ⟨_, rfl⟩
    · exact .inl rfl
  unfold TickUnit.ofJson
  split
  · exact hkey _
  · exact hkey _
  · exact .inl rfl

namespace JsonValue

theorem readNat_integer {max n : Nat} (h : n ≤ max) : (integer n).readNat max = .ok n := by
  unfold readNat
  rw [show natUpTo? max (integer n) = some n from natUpTo?_integer h]

theorem readMillis_integer {m : Nat} (h : m ≤ wordMax) :
    (integer m).readMillis = .ok (.ofMillis m) := by
  unfold readMillis
  rw [readNat_integer h]
  rfl

theorem readNat_cases (v : JsonValue) (max : Nat) :
    v.readNat max = .error .malformed ∨ ∃ n : Nat,
      v = .integer n ∧ n ≤ max ∧ v.readNat max = .ok n := by
  unfold readNat
  cases h : v.natUpTo? max with
  | none => exact .inl rfl
  | some n =>
    unfold natUpTo? at h
    split at h
    · split at h
      · next hle =>
        obtain rfl := Option.some.inj h
        exact .inr ⟨_, rfl, hle, rfl⟩
      · exact nomatch h
    · exact nomatch h

theorem required_of_lookup {fields : List (String × JsonValue)} {key : String} {u : JsonValue}
    (h : fields.lookup key = some u) : required fields key = .ok u := by
  unfold required
  rw [h]

theorem required_cases (fields : List (String × JsonValue)) (key : String) :
    required fields key = .error .malformed ∨ ∃ u, fields.lookup key = some u := by
  unfold required
  cases fields.lookup key with
  | none => exact .inl rfl
  | some u => exact .inr ⟨u, rfl⟩

theorem cut_of_readMillis {v : JsonValue} {d : Duration} (h : v.readMillis = .ok d) :
    d.cut = d := by
  unfold readMillis at h
  rcases v.readNat_cases wordMax with hv | ⟨n, -, hle, hv⟩
  · rw [hv] at h
    exact nomatch h
  · rw [hv] at h
    obtain rfl := Except.ok.inj h
    exact Duration.cut_ofMillis hle

end JsonValue

/-! ### Layouts -/

/-- What a document says of a layout, which may be no layout. -/
structure LayoutEntry where
  timestampBits : UInt8
  workerBits : UInt8
  sequenceBits : UInt8
  unit : TickUnit
  epochMillis : UInt64
  deriving DecidableEq, Repr

namespace LayoutEntry

def layout (e : LayoutEntry) : Except Error IdLayout :=
  IdLayout.make e.timestampBits.toNat e.workerBits.toNat e.sequenceBits.toNat e.unit
    (.ofMillis e.epochMillis.toNat)

/-- Five values say the entry. -/
structure SaidBy (e : LayoutEntry) (t w s unit epoch : JsonValue) : Prop where
  timestampBits : t = .integer e.timestampBits.toNat
  workerBits : w = .integer e.workerBits.toNat
  sequenceBits : s = .integer e.sequenceBits.toNat
  unit : TickUnit.ofJson unit = .ok e.unit
  epochMillis : epoch = .integer e.epochMillis.toNat

/-- A document says the entry, in an object or in a list. -/
inductive Said (e : LayoutEntry) : JsonValue → Prop
  | object {fields : List (String × JsonValue)} {t w s unit epoch : JsonValue}
    (timestampBits : fields.lookup "timestamp_bits" = some t)
    (workerBits : fields.lookup "worker_bits" = some w)
    (sequenceBits : fields.lookup "sequence_bits" = some s)
    (unitOf : fields.lookup "unit" = some unit)
    (epochMillis : fields.lookup "epoch_ms" = some epoch)
    (values : e.SaidBy t w s unit epoch) : Said e (.object fields)
  | list {t w s unit epoch : JsonValue} (values : e.SaidBy t w s unit epoch) :
    Said e (.list [t, w, s, unit, epoch])

end LayoutEntry

namespace IdLayout

theorem toNat_le_maxReadBits (b : UInt8) : b.toNat ≤ maxReadBits :=
  Nat.le_of_lt_succ b.toNat_lt

theorem ofFields_of_saidBy {e : LayoutEntry} {t w s unit epoch : JsonValue}
    (h : e.SaidBy t w s unit epoch) :
    ofFields t w s unit epoch = e.layout.mapError .refused := by
  obtain ⟨rfl, rfl, rfl, hunit, rfl⟩ := h
  unfold ofFields
  rw [JsonValue.readNat_integer (toNat_le_maxReadBits _),
    JsonValue.readNat_integer (toNat_le_maxReadBits _),
    JsonValue.readNat_integer (toNat_le_maxReadBits _), hunit,
    JsonValue.readMillis_integer (toNat_le_wordMax _)]
  unfold LayoutEntry.layout
  dsimp only [bind, Except.bind]
  cases make e.timestampBits.toNat e.workerBits.toNat e.sequenceBits.toNat e.unit
    (.ofMillis e.epochMillis.toNat) with
  | ok l => rfl
  | error e => rfl

theorem ofFields_cases (t w s unit epoch : JsonValue) :
    ofFields t w s unit epoch = .error .malformed ∨
      ∃ e : LayoutEntry, e.SaidBy t w s unit epoch := by
  unfold ofFields
  rcases t.readNat_cases maxReadBits with ht | ⟨nt, rfl, hnt, ht⟩
  · exact .inl (by rw [ht]; rfl)
  rcases w.readNat_cases maxReadBits with hw | ⟨nw, rfl, hnw, hw⟩
  · exact .inl (by rw [ht, hw]; rfl)
  rcases s.readNat_cases maxReadBits with hs | ⟨ns, rfl, hns, hs⟩
  · exact .inl (by rw [ht, hw, hs]; rfl)
  rcases TickUnit.ofJson_cases unit with hu | ⟨u, hu⟩
  · exact .inl (by rw [ht, hw, hs, hu]; rfl)
  rcases epoch.readNat_cases wordMax with he | ⟨ne, rfl, hne, -⟩
  · exact .inl (by rw [ht, hw, hs, hu, JsonValue.readMillis, he]; rfl)
  refine .inr ⟨⟨.ofNatLT nt (Nat.lt_succ_of_le hnt), .ofNatLT nw (Nat.lt_succ_of_le hnw),
    .ofNatLT ns (Nat.lt_succ_of_le hns), u, .ofNatLT ne (Nat.lt_succ_of_le hne)⟩, ?_⟩
  exact ⟨rfl, rfl, rfl, hu, rfl⟩

variable {v : JsonValue} {e : LayoutEntry} {l : IdLayout}

theorem ofJson_of_said (h : e.Said v) : ofJson v = e.layout.mapError .refused := by
  cases h with
  | object timestampBits workerBits sequenceBits unitOf epochMillis values =>
    simp only [ofJson, JsonValue.required_of_lookup timestampBits,
      JsonValue.required_of_lookup workerBits, JsonValue.required_of_lookup sequenceBits,
      JsonValue.required_of_lookup unitOf, JsonValue.required_of_lookup epochMillis]
    exact ofFields_of_saidBy values
  | list values => exact ofFields_of_saidBy values

theorem ofJson_cases (v : JsonValue) :
    ofJson v = .error .malformed ∨ ∃ e : LayoutEntry, e.Said v := by
  unfold ofJson
  split
  · next fields =>
    rcases JsonValue.required_cases fields "timestamp_bits" with h | ⟨t, ht⟩
    · exact .inl (by rw [h]; rfl)
    rw [JsonValue.required_of_lookup ht]
    rcases JsonValue.required_cases fields "worker_bits" with h | ⟨w, hw⟩
    · exact .inl (by rw [h]; rfl)
    rw [JsonValue.required_of_lookup hw]
    rcases JsonValue.required_cases fields "sequence_bits" with h | ⟨s, hs⟩
    · exact .inl (by rw [h]; rfl)
    rw [JsonValue.required_of_lookup hs]
    rcases JsonValue.required_cases fields "unit" with h | ⟨unit, hu⟩
    · exact .inl (by rw [h]; rfl)
    rw [JsonValue.required_of_lookup hu]
    rcases JsonValue.required_cases fields "epoch_ms" with h | ⟨epoch, he⟩
    · exact .inl (by rw [h]; rfl)
    rw [JsonValue.required_of_lookup he]
    rcases ofFields_cases t w s unit epoch with h | ⟨e, values⟩
    · exact .inl h
    · exact .inr ⟨e, .object ht hw hs hu he values⟩
  · next t w s unit epoch =>
    rcases ofFields_cases t w s unit epoch with h | ⟨e, values⟩
    · exact .inl h
    · exact .inr ⟨e, .list values⟩
  · exact .inl rfl

theorem ofJson_eq_ok_iff : ofJson v = .ok l ↔ ∃ e : LayoutEntry, e.Said v ∧ e.layout = .ok l := by
  constructor
  · intro h
    rcases ofJson_cases v with hv | ⟨e, he⟩
    · rw [hv] at h
      exact nomatch h
    refine ⟨e, he, ?_⟩
    rw [ofJson_of_said he] at h
    cases hl : e.layout with
    | ok l' =>
      rw [hl] at h
      exact congrArg _ (Except.ok.inj h)
    | error cause =>
      rw [hl] at h
      exact nomatch h
  · rintro ⟨e, he, hl⟩
    rw [ofJson_of_said he, hl]
    rfl

theorem epoch_of_make {t w s : Nat} {unit : TickUnit} {epoch : Duration}
    (h : make t w s unit epoch = .ok l) : l.epoch = epoch := by
  unfold make at h
  split at h
  · cases h
  split at h
  · cases h
  · cases h
    rfl

theorem cut_of_ofJson (h : ofJson v = .ok l) : l.cut = l := by
  obtain ⟨e, -, hl⟩ := ofJson_eq_ok_iff.mp h
  have hepoch : l.epoch = .ofMillis e.epochMillis.toNat := epoch_of_make hl
  have hcut : l.epoch.cut = l.epoch := by
    rw [hepoch, Duration.cut_ofMillis (toNat_le_wordMax _)]
  unfold cut withEpoch
  rw [hcut]

theorem make_fields (l : IdLayout) (epoch : Duration) :
    make l.timestampBits l.workerBits l.sequenceBits l.unit epoch = .ok (l.withEpoch epoch) := by
  have ht := l.timestampBits_pos
  have hw := l.workerBits_pos
  have hs := l.sequenceBits_pos
  unfold make
  rw [dif_neg (by omega), dif_neg (Nat.not_lt.mpr l.bits_le)]
  rfl

theorem ofJson_toJson (l : IdLayout) : ofJson l.toJson = .ok l.cut := by
  have hbits := l.bits_le
  have hsize : UInt8.size = 256 := rfl
  have hepoch : l.epochMillis ≤ wordMax := l.epoch.cappedMillis_le
  refine ofJson_eq_ok_iff.mpr ⟨⟨.ofNatLT l.timestampBits (by omega),
    .ofNatLT l.workerBits (by omega), .ofNatLT l.sequenceBits (by omega), l.unit,
    .ofNatLT l.epochMillis (Nat.lt_succ_of_le hepoch)⟩, ?_, l.make_fields l.epoch.cut⟩
  exact .object rfl rfl rfl rfl rfl ⟨rfl, rfl, rfl, l.unit.ofJson_key, rfl⟩

theorem toJson_cut (l : IdLayout) : l.cut.toJson = l.toJson := by
  unfold toJson
  rw [epochMillis_cut]
  rfl

end IdLayout

/-! ### Settings -/

/-- The layout that settings name in an object or in a list. -/
def layoutIn? : JsonValue → Option JsonValue
  | .object fields => fields.lookup "layout"
  | .list values => values[0]?
  | _ => none

namespace LayoutEntry

def standard : LayoutEntry := ⟨41, 10, 12, .millis, 1735689600000⟩

/-- Settings name the entry, or name none and mean the standard one. -/
def MeantIn (e : LayoutEntry) (v : JsonValue) : Prop :=
  match layoutIn? v with
  | some u => e.Said u
  | none => e = standard

end LayoutEntry

namespace IdSettings

theorem ofJson_toJson (c : IdSettings) : ofJson c.toJson = .ok c.cut := by
  have hdrift := JsonValue.readMillis_integer c.maxClockDrift.cappedMillis_le
  have hwait := JsonValue.readMillis_integer c.maxWait.cappedMillis_le
  show ofFields (some c.layout.toJson) (some (.integer c.maxClockDrift.cappedMillis))
    (some (.integer c.maxWait.cappedMillis)) = _
  unfold ofFields
  simp only [readOr]
  rw [IdLayout.ofJson_toJson, hdrift, hwait]
  rfl

theorem toJson_cut (c : IdSettings) : c.cut.toJson = c.toJson := by
  unfold toJson
  rw [cut, IdLayout.toJson_cut, Duration.cappedMillis_cut, Duration.cappedMillis_cut]

/-- Settings are written alike when they are cut alike. -/
theorem toJson_eq_iff {c d : IdSettings} : c.toJson = d.toJson ↔ c.cut = d.cut := by
  constructor
  · intro h
    have hread := ofJson_toJson c
    rw [h, ofJson_toJson] at hread
    exact (Except.ok.inj hread).symm
  · intro h
    rw [← toJson_cut c, h, toJson_cut]

variable {v : JsonValue} {c : IdSettings}

theorem ofFields_eq_ok_iff {layout drift wait : Option JsonValue} :
    ofFields layout drift wait = .ok c ↔
      readOr standard.layout IdLayout.ofJson layout = .ok c.layout ∧
        readOr standard.maxClockDrift JsonValue.readMillis drift = .ok c.maxClockDrift ∧
        readOr standard.maxWait JsonValue.readMillis wait = .ok c.maxWait := by
  unfold ofFields
  cases readOr standard.layout IdLayout.ofJson layout with
  | error e => exact iff_of_false nofun (fun h => nomatch h.1)
  | ok l =>
    cases readOr standard.maxClockDrift JsonValue.readMillis drift with
    | error e => exact iff_of_false nofun (fun h => nomatch h.2.1)
    | ok d =>
      cases readOr standard.maxWait JsonValue.readMillis wait with
      | error e => exact iff_of_false nofun (fun h => nomatch h.2.2)
      | ok w =>
        constructor
        · rintro ⟨⟩
          exact ⟨rfl, rfl, rfl⟩
        · rintro ⟨⟨⟩, ⟨⟩, ⟨⟩⟩
          rfl

theorem exists_fields_of_ofJson (h : ofJson v = .ok c) :
    ∃ drift wait, ofFields (layoutIn? v) drift wait = .ok c := by
  unfold ofJson at h
  split at h
  · exact ⟨_, _, h⟩
  · next values =>
    refine ⟨values[1]?, values[2]?, ?_⟩
    cases hfields : ofFields values[0]? values[1]? values[2]? with
    | error e =>
      rw [hfields] at h
      exact nomatch h
    | ok c' =>
      rw [hfields] at h
      dsimp only [bind, Except.bind] at h
      split at h
      · rw [← Except.ok.inj h]
        exact hfields
      · exact nomatch h
  · exact nomatch h

/-- What holds of the default and of all that is read holds of a value that may be missing. -/
theorem of_readOr {α : Type} {standard a : α} {read : JsonValue → Except ReadError α}
    {u : Option JsonValue} (P : α → Prop) (h : readOr standard read u = .ok a)
    (hstandard : P standard) (hread : ∀ v, read v = .ok a → P a) : P a := by
  cases u with
  | none => rwa [← Except.ok.inj h]
  | some v => exact hread v h

/-- Settings that were read are cut already, so they are written and read without loss. -/
theorem cut_of_ofJson (h : ofJson v = .ok c) : c.cut = c := by
  obtain ⟨drift, wait, hfields⟩ := exists_fields_of_ofJson h
  obtain ⟨hlayout, hdrift, hwait⟩ := ofFields_eq_ok_iff.mp hfields
  have hlayout : c.layout.cut = c.layout :=
    of_readOr (fun l => l.cut = l) hlayout rfl fun _ => IdLayout.cut_of_ofJson
  have hdrift : c.maxClockDrift.cut = c.maxClockDrift :=
    of_readOr (fun d => d.cut = d) hdrift rfl fun _ => JsonValue.cut_of_readMillis
  have hwait : c.maxWait.cut = c.maxWait :=
    of_readOr (fun d => d.cut = d) hwait rfl fun _ => JsonValue.cut_of_readMillis
  rw [cut, hlayout, hdrift, hwait]

/-- The layout of settings that were read is made by the entry that they mean. -/
theorem exists_entry_of_ofJson (h : ofJson v = .ok c) :
    ∃ e : LayoutEntry, e.MeantIn v ∧ e.layout = .ok c.layout := by
  obtain ⟨drift, wait, hfields⟩ := exists_fields_of_ofJson h
  obtain ⟨hlayout, -, -⟩ := ofFields_eq_ok_iff.mp hfields
  unfold LayoutEntry.MeantIn
  cases hin : layoutIn? v with
  | none =>
    rw [hin] at hlayout
    exact ⟨.standard, rfl, by rw [← Except.ok.inj hlayout]; rfl⟩
  | some u =>
    rw [hin] at hlayout
    exact IdLayout.ofJson_eq_ok_iff.mp hlayout

/-- Settings that are written can be read.  What is read has the epoch, the drift and the wait in
whole milliseconds, as many as a word can say; it is written as the same value, and a generator of
it answers every run alike.  And a document is read only with a layout that its values make. -/
theorem document_round_trip (c : IdSettings) :
    (∃ d, ofJson c.toJson = .ok d ∧
      d.layout = c.layout.withEpoch c.layout.epoch.cut ∧
      d.maxClockDrift = c.maxClockDrift.cut ∧ d.maxWait = c.maxWait.cut ∧
      d.toJson = c.toJson ∧
      ∀ s rs, ((IdGenerator.fresh s d).pollAll rs).1 = ((IdGenerator.fresh s c).pollAll rs).1) ∧
    ∀ v d, ofJson v = .ok d → ∃ e : LayoutEntry, e.MeantIn v ∧ e.layout = .ok d.layout := by
  constructor
  · refine ⟨c.cut, ofJson_toJson c, rfl, rfl, rfl, toJson_cut c, ?_⟩
    intro s rs
    have hpolls := (IdGenerator.fresh s c).pollAll_cut rs
    exact congrArg (·.1) hpolls
  · intro v d hread
    exact exists_entry_of_ofJson hread

/-- An epoch of a millisecond and a half, a drift that no word can say, and a wait between two
milliseconds. -/
def fractional : IdSettings where
  layout := IdLayout.layout52.withEpoch ⟨1500000⟩
  maxClockDrift := .ofMillis 18446744073709551620
  maxWait := ⟨2000999999⟩

/-- They are read back cut, and settings that name no layout mean the standard one. -/
theorem document_round_trip_of_fractional :
    (∃ d, ofJson fractional.toJson = .ok d ∧ d.layout.epoch = .ofMillis 1 ∧
      d.maxClockDrift = .ofMillis wordMax ∧ d.maxWait = .ofMillis 2000 ∧
      ∃ e : LayoutEntry, e.MeantIn fractional.toJson ∧ e.layout = .ok d.layout) ∧
    ∃ e : LayoutEntry, e.MeantIn (.object [("max_wait_ms", .integer 100)]) ∧
      e.layout = .ok .standard := by
  obtain ⟨⟨d, hread, hlayout, hdrift, hwait, -⟩, haccept⟩ := document_round_trip fractional
  refine ⟨⟨d, hread, ?_, hdrift, hwait, haccept _ _ hread⟩, ?_⟩
  · rw [hlayout]
    rfl
  · exact haccept _ { standard with maxWait := .ofMillis 100 } rfl

end IdSettings

end StoreClient
