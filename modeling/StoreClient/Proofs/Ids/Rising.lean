import StoreClient.Ids.Generator
import StoreClient.Proofs.Ids.Packing

/-! # Rising ids

A generator remembers the fields of its last id.  A poll that issues another id takes fields that
come after those (`IdGenerator.ready_of_poll`), and every other poll leaves the memory as it is
(`IdGenerator.history_of_poll`).  So the ids of a run of polls rise strictly, whatever clock
readings and worker ids the polls bring, and carry the workers of their polls: two generators that
share no worker share no id (`IdGenerator.ids_rise`). -/

namespace StoreClient

/-- The fields of the last id. -/
def Issued.parts (i : Issued) : IdParts := ⟨i.tick, i.worker, i.sequence⟩

/-- The id of an answer, if it is one. -/
def readyId? : Outcome Poll → Option SnowflakeId
  | .ok (.ready id) => some id
  | _ => none

/-- The ids among the answers of a run of polls, in order. -/
def issuedIds (answers : List (Outcome Poll)) : List SnowflakeId := answers.filterMap readyId?

namespace IdSettings

variable {c : IdSettings} {h : Option Issued} {r : Reading} {tick : Nat}

theorem issue_eq_ok {s hw : Nat} {a : Poll} {h' : Option Issued}
    (e : c.issue tick s r hw = .ok (a, h')) :
    ∃ id i, a = .ready id ∧ h' = some i ∧ i.parts = ⟨tick, r.worker.toNat, s⟩ ∧
      c.layout.encode i.parts = .ok id := by
  unfold issue at e
  split at e
  · next id hid =>
    obtain ⟨rfl, rfl⟩ := Prod.mk.inj (Except.ok.inj e)
    exact ⟨id, _, rfl, rfl, rfl, hid⟩
  · exact nomatch e

theorem defer_eq_ok {t : Nat} {a : Poll} {h' : Option Issued} (e : c.defer t r h = .ok (a, h')) :
    (∃ d, a = .pending d) ∧ h' = h := by
  unfold defer at e
  split at e
  · obtain ⟨rfl, rfl⟩ := Prod.mk.inj (Except.ok.inj e)
    exact ⟨⟨_, rfl⟩, rfl⟩
  · exact nomatch e

/-- An answer is a wait, which changes nothing, or an id whose fields come after those of the last
one. -/
theorem advance_eq_ok {a : Poll} {h' : Option Issued} (e : c.advance h r tick = .ok (a, h')) :
    ((∃ d, a = .pending d) ∧ h' = h) ∨
      ∃ id i, a = .ready id ∧ h' = some i ∧ c.layout.encode i.parts = .ok id ∧
        i.worker = r.worker.toNat ∧ ∀ last ∈ h, last.parts.Before i.parts := by
  unfold advance at e
  split at e
  · obtain ⟨id, i, ha, hi, hp, he⟩ := issue_eq_ok e
    exact .inr ⟨id, i, ha, hi, he, congrArg IdParts.workerId hp, nofun⟩
  · next last =>
    split at e
    · exact nomatch e
    split at e
    · next hlt =>
      obtain ⟨id, i, ha, hi, hp, he⟩ := issue_eq_ok e
      refine .inr ⟨id, i, ha, hi, he, congrArg IdParts.workerId hp, ?_⟩
      rintro _ ⟨⟩
      rw [hp]
      exact .inl hlt
    split at e
    · exact .inl (defer_eq_ok e)
    split at e
    · exact .inl (defer_eq_ok e)
    split at e
    · next hle hw hge _ =>
      obtain ⟨id, i, ha, hi, hp, he⟩ := issue_eq_ok e
      refine .inr ⟨id, i, ha, hi, he, congrArg IdParts.workerId hp, ?_⟩
      rintro _ ⟨⟩
      rw [hp]
      exact .inr ⟨by simp only [Issued.parts]; omega,
        .inr ⟨(not_not.mp hw).symm, Nat.lt_succ_self _⟩⟩
    · exact .inl (defer_eq_ok e)

end IdSettings

namespace IdGenerator

variable {g g' : IdGenerator} {r : Reading}

def fresh (sharing : Sharing) (settings : IdSettings) : IdGenerator where
  sharing := sharing
  settings := settings

theorem settings_poll (g : IdGenerator) (r : Reading) : (g.poll r).2.settings = g.settings := by
  unfold poll
  repeat' split
  all_goals rfl

/-- A poll that issues no id leaves the memory as it is; one that does takes fields after those of
the last id, with the worker that it read, and remembers them. -/
theorem poll_cases (g : IdGenerator) (r : Reading) :
    (readyId? (g.poll r).1 = none ∧ (g.poll r).2.history = g.history) ∨
      ∃ id i, readyId? (g.poll r).1 = some id ∧ (g.poll r).2.history = some i ∧
        g.settings.layout.encode i.parts = .ok id ∧ i.worker = r.worker.toNat ∧
        ∀ last ∈ g.history, last.parts.Before i.parts := by
  unfold poll
  split
  · exact .inl ⟨rfl, rfl⟩
  · split
    · exact .inl ⟨rfl, rfl⟩
    · split
      · next e =>
        rcases IdSettings.advance_eq_ok e with ⟨⟨d, rfl⟩, rfl⟩ | ⟨id, i, rfl, rfl, he, hw, hb⟩
        · exact .inl ⟨rfl, rfl⟩
        · exact .inr ⟨id, i, rfl, rfl, he, hw, hb⟩
      · exact .inl ⟨rfl, rfl⟩
      · exact .inl ⟨rfl, rfl⟩

theorem issuedIds_pollAll_cons (g : IdGenerator) (r : Reading) (rs : List Reading) :
    issuedIds (g.pollAll (r :: rs)).1 =
      (readyId? (g.poll r).1).toList ++ issuedIds ((g.poll r).2.pollAll rs).1 := by
  unfold issuedIds
  rw [pollAll, List.filterMap_cons]
  cases readyId? (g.poll r).1 <;> rfl

/-- What the ids of a run have to do with the memory from which it starts, and with its readings. -/
structure Continues (g : IdGenerator) (rs : List Reading) (ids : List SnowflakeId) : Prop where
  rising : ids.Pairwise fun a b => a.raw < b.raw
  above : ∀ id ∈ ids, ∀ last ∈ g.history, g.settings.layout.pack last.parts < id.raw.toNat
  worker : ∀ id ∈ ids, ∃ r ∈ rs, (g.settings.layout.decode id).workerId = r.worker.toNat

variable {rs : List Reading} {ids : List SnowflakeId}

theorem Continues.of_history_eq (h : g'.Continues rs ids) (hset : g'.settings = g.settings)
    (hhist : g'.history = g.history) : g.Continues (r :: rs) ids where
  rising := h.rising
  above := by
    rw [← hset, ← hhist]
    exact h.above
  worker id hid := by
    obtain ⟨r', hr', hd⟩ := h.worker id hid
    exact ⟨r', List.mem_cons_of_mem _ hr', hset ▸ hd⟩

theorem Continues.cons {id : SnowflakeId} {i : Issued} (h : g'.Continues rs ids)
    (hset : g'.settings = g.settings) (hhist : g'.history = some i)
    (he : g.settings.layout.encode i.parts = .ok id) (hw : i.worker = r.worker.toNat)
    (hlast : ∀ last ∈ g.history, g.settings.layout.Fits last.parts ∧ last.parts.Before i.parts) :
    g.Continues (r :: rs) (id :: ids) := by
  obtain ⟨hfit, hraw⟩ := IdLayout.encode_eq_ok_iff.mp he
  have hval : id.raw.toNat = g.settings.layout.pack i.parts := by
    rw [hraw, IdLayout.toNat_pack hfit]
  have hnext : ∀ x ∈ ids, id.raw.toNat < x.raw.toNat := by
    intro x hx
    rw [hval, ← hset]
    exact h.above x hx i (by rw [hhist]; rfl)
  have hbefore : ∀ last ∈ g.history, g.settings.layout.pack last.parts < id.raw.toNat := by
    intro last hl
    rw [hval]
    exact IdLayout.pack_lt_pack (hlast last hl).1 (hlast last hl).2
  refine ⟨?_, ?_, ?_⟩
  · rw [List.pairwise_cons]
    exact ⟨fun x hx => UInt64.lt_iff_toNat_lt.mpr (hnext x hx), h.rising⟩
  · intro x hx last hl
    rcases List.mem_cons.mp hx with rfl | hx
    · exact hbefore last hl
    · exact Nat.lt_trans (hbefore last hl) (hnext x hx)
  · intro x hx
    rcases List.mem_cons.mp hx with rfl | hx
    · refine ⟨r, List.mem_cons_self, ?_⟩
      rw [IdLayout.decode_of_encode he]
      exact hw
    · obtain ⟨r', hr', hd⟩ := h.worker x hx
      exact ⟨r', List.mem_cons_of_mem _ hr', hset ▸ hd⟩

theorem continues_pollAll (g : IdGenerator) (rs : List Reading)
    (hg : ∀ last ∈ g.history, g.settings.layout.Fits last.parts) :
    g.Continues rs (issuedIds (g.pollAll rs).1) := by
  induction rs generalizing g with
  | nil => exact ⟨.nil, nofun, nofun⟩
  | cons r rs ih =>
    rw [issuedIds_pollAll_cons]
    have hset := g.settings_poll r
    rcases g.poll_cases r with ⟨hid, hhist⟩ | ⟨id, i, hid, hhist, he, hw, hb⟩
    · rw [hid]
      refine (ih (g.poll r).2 ?_).of_history_eq hset hhist
      rw [hhist, hset]
      exact hg
    · rw [hid]
      refine (ih (g.poll r).2 ?_).cons hset hhist he hw fun last hl => ⟨hg last hl, hb last hl⟩
      rw [hhist, hset]
      rintro _ ⟨⟩
      exact (IdLayout.encode_eq_ok_iff.mp he).1

/-- The ids of a run of polls on a new generator rise strictly, and generators of equal widths
that never read the same worker never issue the same id. -/
theorem ids_rise :
    (∀ (sharing : Sharing) (c : IdSettings) (rs : List Reading),
      (issuedIds ((fresh sharing c).pollAll rs).1).Pairwise fun a b => a.raw < b.raw) ∧
    ∀ (sharing₁ sharing₂ : Sharing) (c₁ c₂ : IdSettings) (rs₁ rs₂ : List Reading),
      (∀ f, c₁.layout.width f = c₂.layout.width f) →
      (∀ r₁ ∈ rs₁, ∀ r₂ ∈ rs₂, r₁.worker ≠ r₂.worker) →
      ∀ id ∈ issuedIds ((fresh sharing₁ c₁).pollAll rs₁).1,
        id ∉ issuedIds ((fresh sharing₂ c₂).pollAll rs₂).1 := by
  constructor
  · intro sharing c rs
    exact (continues_pollAll (fresh sharing c) rs nofun).rising
  · intro sharing₁ sharing₂ c₁ c₂ rs₁ rs₂ hwidth hworker id h₁ h₂
    obtain ⟨r₁, hr₁, hd₁⟩ := (continues_pollAll (fresh sharing₁ c₁) rs₁ nofun).worker id h₁
    obtain ⟨r₂, hr₂, hd₂⟩ := (continues_pollAll (fresh sharing₂ c₂) rs₂ nofun).worker id h₂
    refine hworker r₁ hr₁ r₂ hr₂ (UInt64.toNat_inj.mp ?_)
    rw [← hd₁, ← hd₂]
    show id.raw.toNat / Nat.pow 2 (c₁.layout.width .sequence) %
        Nat.pow 2 (c₁.layout.width .workerId) =
      id.raw.toNat / Nat.pow 2 (c₂.layout.width .sequence) % Nat.pow 2 (c₂.layout.width .workerId)
    rw [hwidth .sequence, hwidth .workerId]

/-- Two workers change back and forth while the clock stalls and steps back; one worker does not
fit its field. -/
def flapping : List Reading :=
  [⟨1735689600007, 1⟩, ⟨1735689600007, 1⟩, ⟨1735689600007, 3⟩, ⟨1735689600004, 1⟩,
    ⟨1735689600008, 3⟩, ⟨1735689600008, 1⟩, ⟨1735689600009, 5000⟩, ⟨1735689600010, 1⟩]

/-- A third worker on the same ticks of another epoch. -/
def steady : List Reading := [⟨7, 2⟩, ⟨7, 2⟩, ⟨8, 2⟩, ⟨10, 2⟩]

theorem ids_rise_of_flapping :
    issuedIds ((fresh .locked { layout := .layout64 }).pollAll flapping).1 =
      [⟨29364224⟩, ⟨29364225⟩, ⟨33566720⟩, ⟨41947136⟩] ∧
    issuedIds ((fresh .exclusive { layout := IdLayout.layout64.withEpoch .zero }).pollAll steady).1 =
      [⟨29368320⟩, ⟨29368321⟩, ⟨33562624⟩, ⟨41951232⟩] ∧
    ((issuedIds ((fresh .locked { layout := .layout64 }).pollAll flapping).1).Pairwise
      fun a b => a.raw < b.raw) ∧
    (∀ f, IdLayout.layout64.width f = (IdLayout.layout64.withEpoch .zero).width f) ∧
    (∀ r₁ ∈ flapping, ∀ r₂ ∈ steady, r₁.worker ≠ r₂.worker) ∧
    ∀ id ∈ issuedIds ((fresh .locked { layout := .layout64 }).pollAll flapping).1,
      id ∉ issuedIds
        ((fresh .exclusive { layout := IdLayout.layout64.withEpoch .zero }).pollAll steady).1 := by
  have hwidth : ∀ f, IdLayout.layout64.width f = (IdLayout.layout64.withEpoch .zero).width f :=
    fun _ => rfl
  have hworker : ∀ r₁ ∈ flapping, ∀ r₂ ∈ steady, r₁.worker ≠ r₂.worker := by decide
  exact ⟨by decide +kernel, by decide +kernel, ids_rise.1 _ _ _, hwidth, hworker,
    ids_rise.2 _ _ _ _ _ _ hwidth hworker⟩

end IdGenerator
end StoreClient
