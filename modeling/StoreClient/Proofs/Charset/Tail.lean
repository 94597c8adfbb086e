import StoreClient.Proofs.Charset.Chunking
import StoreClient.Proofs.Charset.RoundTrip
import Mathlib.Data.List.Induction

/-! # The tail that a decoder carries

`Utf8.parts` cuts a byte string where the lossy scan begins to read: each part is the unit of a
character or becomes one U+FFFD (`Utf8.decode_eq_parts`).  A part may lack followers only if it is
the beginning of a unit (`Utf8.begun_of_part`), which the scan settles if another part comes after
it (`Utf8.scan_cons`).  So what is left unread is the longest part at the end that further bytes
could complete (`Utf8.longestTail_scan`), and what is settled is the text of the parts before it.

In UTF-16 the odd byte is left, and of the units the last one if it is a high surrogate
(`Utf16.fst_run`).  A decoder carries just that, however its input was cut into chunks
(`Decoder.carries_tail`). -/

namespace StoreClient

namespace Utf8

/-! ### Beginnings of a unit -/

/-- The bytes of a character without the last one or more of them. -/
def Begun (bs : Bytes) : Prop := ∃ ch more, more ≠ [] ∧ encodeChar ch = bs ++ more

theorem begun_nil : Begun [] := ⟨'a', [97], List.cons_ne_nil _ _, rfl⟩

theorem followers_cases {b : UInt8} {rs : List Range} (h : followers b = some rs) :
    b.toNat < 0x80 ∧ rs = [] ∨ (0xC2 ≤ b.toNat ∧ b.toNat < 0xE0) ∧ rs = [tail] ∨
      (0xE0 ≤ b.toNat ∧ b.toNat < 0xF0) ∧ rs = [second3 b, tail] ∨
      (0xF0 ≤ b.toNat ∧ b.toNat ≤ 0xF4) ∧ rs = [second4 b, tail, tail] := by
  have hsome {rs' : List Range} (h' : followers b = some rs') : rs = rs' :=
    Option.some.inj (h.symm.trans h')
  by_cases h1 : b.toNat < 0x80
  · exact .inl ⟨h1, hsome (followers_of_one h1)⟩
  by_cases h2 : b.toNat < 0xC2
  · simp only [followers, UInt8.lt_iff_toNat_lt, UInt8.reduceToNat, if_neg h1, if_pos h2] at h
    cases h
  have h2 : 0xC2 ≤ b.toNat := Nat.not_lt.mp h2
  by_cases h3 : b.toNat < 0xE0
  · exact .inr (.inl ⟨⟨h2, h3⟩, hsome (followers_of_two h2 h3)⟩)
  have h3 : 0xE0 ≤ b.toNat := Nat.not_lt.mp h3
  by_cases h4 : b.toNat < 0xF0
  · exact .inr (.inr (.inl ⟨⟨h3, h4⟩, hsome (followers_of_three h3 h4)⟩))
  have h4 : 0xF0 ≤ b.toNat := Nat.not_lt.mp h4
  by_cases h5 : b.toNat ≤ 0xF4
  · exact .inr (.inr (.inr ⟨⟨h4, h5⟩, hsome (followers_of_four h4 h5)⟩))
  · simp only [followers, UInt8.lt_iff_toNat_lt, ← UInt8.toNat_inj, UInt8.reduceToNat] at h
    rw [if_neg (by omega), if_neg (by omega), if_neg (by omega), if_neg (by omega),
      if_neg (by omega), if_neg (by omega), if_neg (by omega), if_neg (by omega),
      if_neg (by omega)] at h
    cases h

theorem length_followers_le {b : UInt8} {rs : List Range} (h : followers b = some rs) :
    rs.length ≤ 3 := by
  rcases followers_cases h with ⟨-, rfl⟩ | ⟨-, rfl⟩ | ⟨-, rfl⟩ | ⟨-, rfl⟩
  all_goals simp

theorem low_le_high {b : UInt8} {rs : List Range} (h : followers b = some rs) :
    ∀ r ∈ rs, r.low ≤ r.high := by
  have htail : tail.low ≤ tail.high := by decide
  have hsecond {p q : Prop} [Decidable p] [Decidable q] {r r' : Range} (hr : r.low ≤ r.high)
      (hr' : r'.low ≤ r'.high) : (if p then r else if q then r' else tail).low ≤
        (if p then r else if q then r' else tail).high := by
    split
    · exact hr
    split
    · exact hr'
    · exact htail
  have h3 : (second3 b).low ≤ (second3 b).high := hsecond (by decide) (by decide)
  have h4 : (second4 b).low ≤ (second4 b).high := hsecond (by decide) (by decide)
  rcases followers_cases h with ⟨-, rfl⟩ | ⟨-, rfl⟩ | ⟨-, rfl⟩ | ⟨-, rfl⟩
  · simp
  · simpa using htail
  · simpa using ⟨h3, htail⟩
  · simpa using ⟨h4, htail⟩

theorem fill_map_low {rs : List Range} (h : ∀ r ∈ rs, r.low ≤ r.high) :
    Fill rs (rs.map Range.low) := by
  induction rs with
  | nil => exact .nil
  | cons r rs ih =>
    rw [List.forall_mem_cons] at h
    exact .cons (contains_iff.mpr ⟨Nat.le_refl _, UInt8.le_iff_toNat_le.mp h.1⟩) (ih h.2)

/-- The range of a second byte, which two lead bytes narrow at one end. -/
theorem contains_narrowed {p q : Prop} [Decidable p] [Decidable q] {low high c : UInt8}
    (hlow : 128 ≤ low.toNat) (hhigh : high.toNat ≤ 191)
    (h : (if p then (⟨low, 0xBF⟩ : Range) else if q then ⟨0x80, high⟩ else tail).contains c =
      true) :
    (128 ≤ c.toNat ∧ c.toNat ≤ 191) ∧ (p → low.toNat ≤ c.toNat) ∧
      (¬p → q → c.toNat ≤ high.toNat) := by
  split at h
  · next hp =>
    obtain ⟨hl, hh⟩ : low.toNat ≤ c.toNat ∧ c.toNat ≤ 191 := contains_iff.mp h
    exact ⟨⟨Nat.le_trans hlow hl, hh⟩, fun _ => hl, fun hn => absurd hp hn⟩
  next hp =>
  split at h
  · obtain ⟨hl, hh⟩ : 128 ≤ c.toNat ∧ c.toNat ≤ high.toNat := contains_iff.mp h
    exact ⟨⟨hl, Nat.le_trans hh hhigh⟩, fun h => absurd h hp, fun _ _ => hh⟩
  · next hq => exact ⟨contains_iff.mp h, fun h => absurd h hp, fun _ h => absurd h hq⟩

/-- The second byte of three keeps clear of shorter units and of surrogates. -/
theorem second3_bounds {b c : UInt8} (h : (second3 b).contains c = true) :
    (128 ≤ c.toNat ∧ c.toNat ≤ 191) ∧ (b.toNat = 0xE0 → 0xA0 ≤ c.toNat) ∧
      (b.toNat = 0xED → c.toNat ≤ 0x9F) := by
  obtain ⟨hc, hlow, hhigh⟩ := contains_narrowed (by decide) (by decide) h
  exact ⟨hc, hlow, fun hb => hhigh (by omega) hb⟩

/-- The second byte of four keeps clear of shorter units and of what lies past the last
character. -/
theorem second4_bounds {b c : UInt8} (h : (second4 b).contains c = true) :
    (128 ≤ c.toNat ∧ c.toNat ≤ 191) ∧ (b.toNat = 0xF0 → 0x90 ≤ c.toNat) ∧
      (b.toNat = 0xF4 → c.toNat ≤ 0x8F) := by
  obtain ⟨hc, hlow, hhigh⟩ := contains_narrowed (by decide) (by decide) h
  exact ⟨hc, hlow, fun hb => hhigh (by omega) hb⟩

theorem toUInt8_eq {n : Nat} {b : UInt8} (h : n = b.toNat) : n.toUInt8 = b := by
  rw [h]
  exact UInt8.ofNat_toNat

theorem exists_encodeChar {b : UInt8} {rs : List Range} {bs : Bytes} (h : followers b = some rs)
    (hfill : Fill rs bs) : ∃ ch, encodeChar ch = b :: bs := by
  have hchar {n : Nat} (hn : n < 0xD800 ∨ 0xDFFF < n ∧ n < 0x110000) :
      (Char.ofNat n).toNat = n := by
    rw [Char.ofNat, dif_pos hn]
    rfl
  have htail {c : UInt8} (hc : tail.contains c = true) : 128 ≤ c.toNat ∧ c.toNat ≤ 191 :=
    contains_iff.mp hc
  refine ⟨charOf (b :: bs), ?_⟩
  unfold charOf
  rcases followers_cases h with ⟨hb, rfl⟩ | ⟨hb, rfl⟩ | ⟨hb, rfl⟩ | ⟨hb, rfl⟩
  · obtain rfl := List.forall₂_nil_left_iff.mp hfill
    rw [codePoint, encodeChar, hchar (by omega), if_pos hb, toUInt8_eq rfl]
  · obtain ⟨c, cs, hc, hcs, rfl⟩ := List.forall₂_cons_left_iff.mp hfill
    obtain rfl := List.forall₂_nil_left_iff.mp hcs
    have hc := htail hc
    rw [codePoint, encodeChar, hchar (by omega), if_neg (by omega), if_pos (by omega),
      toUInt8_eq (b := b) (by omega), toUInt8_eq (b := c) (by omega)]
  · obtain ⟨c, cs, hc, hcs, rfl⟩ := List.forall₂_cons_left_iff.mp hfill
    obtain ⟨d, ds, hd, hds, rfl⟩ := List.forall₂_cons_left_iff.mp hcs
    obtain rfl := List.forall₂_nil_left_iff.mp hds
    have hd := htail hd
    have hc := second3_bounds hc
    rw [codePoint, encodeChar, hchar (by omega), if_neg (by omega), if_neg (by omega),
      if_pos (by omega), toUInt8_eq (b := b) (by omega), toUInt8_eq (b := c) (by omega),
      toUInt8_eq (b := d) (by omega)]
  · obtain ⟨c, cs, hc, hcs, rfl⟩ := List.forall₂_cons_left_iff.mp hfill
    obtain ⟨d, ds, hd, hds, rfl⟩ := List.forall₂_cons_left_iff.mp hcs
    obtain ⟨e, es, he, hes, rfl⟩ := List.forall₂_cons_left_iff.mp hds
    obtain rfl := List.forall₂_nil_left_iff.mp hes
    have hd := htail hd
    have he := htail he
    have hc := second4_bounds hc
    rw [codePoint, encodeChar, hchar (by omega), if_neg (by omega), if_neg (by omega),
      if_neg (by omega), toUInt8_eq (b := b) (by omega), toUInt8_eq (b := c) (by omega),
      toUInt8_eq (b := d) (by omega), toUInt8_eq (b := e) (by omega)]

theorem Begun.length_le {bs : Bytes} (h : Begun bs) : bs.length ≤ 3 := by
  obtain ⟨ch, more, hmore, hunit⟩ := h
  obtain ⟨b, bs', rs, hb, hrs, hfill, -⟩ := encodeChar_cases ch
  have hlen : bs'.length + 1 = bs.length + more.length := by
    rw [← List.length_append, ← hunit, hb, List.length_cons]
  have hmore := List.length_pos_iff.mpr hmore
  have hle := length_followers_le hrs
  have hfill := hfill.length_eq
  omega

theorem spanFit_of_fill_append {rs : List Range} {bs more : Bytes} (h : Fill rs (bs ++ more)) :
    spanFit rs bs = (bs, []) := by
  induction bs generalizing rs with
  | nil => cases rs <;> rfl
  | cons b bs ih =>
    obtain ⟨r, rs, hb, hbs, rfl⟩ := List.forall₂_cons_right_iff.mp h
    rw [spanFit, if_pos hb, ih hbs]

/-- The beginning of a unit is a lead byte, and fewer of its followers than it has. -/
theorem Begun.span {b : UInt8} {bs : Bytes} (h : Begun (b :: bs)) : ∃ rs, followers b = some rs ∧
    spanFit rs bs = (bs, []) ∧ bs.length < rs.length := by
  obtain ⟨ch, more, hmore, hunit⟩ := h
  obtain ⟨b', bs', rs, hb, hrs, hfill, -⟩ := encodeChar_cases ch
  rw [hb, List.cons_append] at hunit
  obtain ⟨rfl, rfl⟩ := List.cons.inj hunit
  have hmore := List.length_pos_iff.mpr hmore
  have hlen := hfill.length_eq
  rw [List.length_append] at hlen
  exact ⟨rs, hrs, spanFit_of_fill_append hfill, by omega⟩

theorem fill_spanFit (rs : List Range) (bs : Bytes) :
    Fill (rs.take (spanFit rs bs).1.length) (spanFit rs bs).1 := by
  fun_induction spanFit rs bs with
  | case1 r rs b bs h ih => exact .cons h ih
  | case2 r rs b bs h => exact .nil
  | case3 rs bs h => exact .nil

/-- A lead byte with some of its followers is the beginning of a unit, since the lowest bytes
complete it. -/
theorem begun_of_part {b : UInt8} {bs : Bytes} {rs : List Range} (h : followers b = some rs)
    (part : (spanFit rs bs).1.length ≠ rs.length) : Begun (b :: (spanFit rs bs).1) := by
  have hle := length_spanFit_fst_le rs bs
  have hrest : ∀ r ∈ rs.drop (spanFit rs bs).1.length, r.low ≤ r.high := fun r hr =>
    low_le_high h r (List.mem_of_mem_drop hr)
  have hfill : Fill (_ ++ _) (_ ++ _) := List.rel_append (fill_spanFit rs bs) (fill_map_low hrest)
  rw [List.take_append_drop] at hfill
  obtain ⟨ch, hch⟩ := exists_encodeChar h hfill
  refine ⟨ch, (rs.drop (spanFit rs bs).1.length).map Range.low, ?_, hch⟩
  rw [ne_eq, List.map_eq_nil_iff, List.drop_eq_nil_iff]
  omega

/-! ### The parts of a scan -/

/-- The part that begins with a byte, and the bytes after it. -/
def cut (b : UInt8) (bs : Bytes) : Bytes × Bytes :=
  match followers b with
  | none => ([b], bs)
  | some rs => (b :: (spanFit rs bs).1, (spanFit rs bs).2)

theorem append_cut (b : UInt8) (bs : Bytes) : (cut b bs).1 ++ (cut b bs).2 = b :: bs := by
  unfold cut
  split
  · rfl
  · next rs h => rw [List.cons_append, append_spanFit]

theorem length_cut_snd_le (b : UInt8) (bs : Bytes) : (cut b bs).2.length ≤ bs.length := by
  unfold cut
  split
  · exact Nat.le_refl _
  · next rs h => exact length_spanFit_snd_le rs bs

/-- The parts at which the lossy scan begins to read. -/
def parts : Bytes → List Bytes
  | [] => []
  | b :: bs => (cut b bs).1 :: parts (cut b bs).2
termination_by bs => bs.length
decreasing_by exact Nat.lt_succ_of_le (length_cut_snd_le b bs)

/-- The character of a part: its own if it is a unit, else U+FFFD. -/
def charOfPart (part : Bytes) : Char := if missing part = some [] then charOf part else replacement

theorem charOfPart_of_none {b : UInt8} (h : followers b = none) : charOfPart [b] = replacement := by
  have hmissing : missing [b] = none := by rw [missing, h, Option.bind_none]
  rw [charOfPart, hmissing, if_neg (Option.some_ne_none _).symm]

theorem charOfPart_of_some {b : UInt8} {rs : List Range} (h : followers b = some rs) (bs : Bytes) :
    charOfPart (b :: (spanFit rs bs).1) =
      if (spanFit rs bs).1.length = rs.length then charOf (b :: (spanFit rs bs).1)
      else replacement := by
  have hle := length_spanFit_fst_le rs bs
  have hmissing : missing (b :: (spanFit rs bs).1) = some [] ↔
      (spanFit rs bs).1.length = rs.length := by
    rw [missing, h, Option.bind_some, unfilled_spanFit, Option.some.injEq, List.drop_eq_nil_iff]
    omega
  simp only [charOfPart, hmissing]

theorem decode_eq_parts (bs : Bytes) : decode bs = (parts bs).map charOfPart := by
  unfold decode
  fun_induction parts bs with
  | case1 =>
    rw [pieces_eq_nil_iff.mpr rfl]
    rfl
  | case2 b bs ih =>
    rw [List.map_cons, ← ih]
    unfold cut
    split
    · next h =>
      rw [pieces_of_none bs h, charOfPart_of_none h]
      rfl
    · next rs h =>
      rw [charOfPart_of_some h]
      split
      · next full => rw [pieces_of_unit h full, flatMap_text_cons]
      · next part =>
        rw [pieces_of_part h part]
        rfl

/-- A scan settles a part unless it is the beginning of a unit and the last part. -/
theorem scan_cons {b : UInt8} {bs : Bytes} (h : Begun (cut b bs).1 → (cut b bs).2 ≠ []) :
    scan (b :: bs) = (charOfPart (cut b bs).1 :: (scan (cut b bs).2).1, (scan (cut b bs).2).2) := by
  unfold cut at h ⊢
  split
  · next hb => rw [scan_of_none bs hb, charOfPart_of_none hb]
  · next rs hb =>
    rw [hb] at h
    rw [charOfPart_of_some hb]
    split
    · next full => rw [scan_of_unit hb full]
    · next part => rw [scan_of_broken hb part (h (begun_of_part hb part))]

theorem cut_of_begun {b : UInt8} {bs : Bytes} (h : Begun (b :: bs)) : cut b bs = (b :: bs, []) := by
  obtain ⟨rs, hb, hspan, -⟩ := h.span
  rw [cut, hb]
  show (b :: (spanFit rs bs).1, (spanFit rs bs).2) = _
  rw [hspan]

theorem scan_of_begun {bs : Bytes} (h : Begun bs) : scan bs = ([], bs) := by
  cases bs with
  | nil => exact scan_nil
  | cons b bs =>
    obtain ⟨rs, hb, hspan, hlt⟩ := h.span
    rw [scan, hb]
    simp only [hspan, Nat.ne_of_lt hlt, if_false, List.isEmpty_nil, if_true]

theorem parts_of_begun {bs : Bytes} (h : Begun bs) (hne : bs ≠ []) : parts bs = [bs] := by
  obtain ⟨b, bs, rfl⟩ := List.exists_cons_of_ne_nil hne
  rw [parts, cut_of_begun h, parts]

theorem flatten_parts (bs : Bytes) : (parts bs).flatten = bs := by
  fun_induction parts bs with
  | case1 => rfl
  | case2 b bs ih => rw [List.flatten_cons, ih, append_cut]

theorem spanFit_append_prefix {rs : List Range} {bs front : Bytes}
    (h : front <+: (spanFit rs bs).2) :
    spanFit rs ((spanFit rs bs).1 ++ front) = ((spanFit rs bs).1, front) := by
  fun_induction spanFit rs bs with
  | case1 r rs b bs hb ih => rw [List.cons_append, spanFit, if_pos hb, ih h]
  | case2 r rs b bs hb =>
    cases front with
    | nil => rfl
    | cons c front =>
      obtain ⟨rfl, -⟩ := List.cons_prefix_cons.mp h
      rw [List.nil_append, spanFit, if_neg hb]
  | case3 rs bs hrs =>
    cases rs with
    | nil => rfl
    | cons r rs =>
      cases bs with
      | nil =>
        obtain rfl := List.prefix_nil.mp h
        rfl
      | cons b bs => exact absurd rfl (hrs r rs b bs rfl)

theorem parts_append_prefix {b : UInt8} {bs front : Bytes} (h : front <+: (cut b bs).2) :
    parts ((cut b bs).1 ++ front) = (cut b bs).1 :: parts front := by
  have hcut (begun : Bytes) (e : cut b (begun ++ front) = (b :: begun, front)) :
      parts (b :: begun ++ front) = (b :: begun) :: parts front := by
    rw [List.cons_append, parts, e]
  cases hb : followers b with
  | none =>
    have e (bs : Bytes) : cut b bs = ([b], bs) := by rw [cut, hb]
    rw [e] at h ⊢
    exact hcut [] (e front)
  | some rs =>
    have e (bs : Bytes) : cut b bs = (b :: (spanFit rs bs).1, (spanFit rs bs).2) := by rw [cut, hb]
    rw [e] at h ⊢
    exact hcut _ (by rw [e, spanFit_append_prefix h])

/-- Where one part ends and the next begins, the parts of the bytes before are the parts before,
and so it is with those after. -/
theorem parts_split {bs : Bytes} {done todo : List Bytes} (h : parts bs = done ++ todo) :
    parts done.flatten = done ∧ parts todo.flatten = todo := by
  fun_induction parts bs generalizing done with
  | case1 =>
    obtain ⟨rfl, rfl⟩ := List.append_eq_nil_iff.mp h.symm
    exact ⟨parts.eq_def [], parts.eq_def []⟩
  | case2 b bs ih =>
    cases done with
    | nil =>
      obtain rfl := h
      refine ⟨parts.eq_def [], ?_⟩
      rw [List.flatten_cons, flatten_parts, append_cut, parts]
    | cons part done =>
      rw [List.cons_append] at h
      obtain ⟨rfl, hrest⟩ := List.cons.inj h
      obtain ⟨hdone, htodo⟩ := ih hrest
      refine ⟨?_, htodo⟩
      have hfront : done.flatten <+: (cut b bs).2 := by
        rw [← flatten_parts (cut b bs).2, hrest, List.flatten_append]
        exact List.prefix_append _ _
      rw [List.flatten_cons, parts_append_prefix hfront, hdone]

/-! ### What a scan leaves -/

/-- The scan begins a part, or ends, where `rest` begins. -/
def Boundary (bs rest : Bytes) : Prop := ∃ done todo, parts bs = done ++ todo ∧ todo.flatten = rest

/-- The longest beginning of a unit that a byte string ends with and that begins a part. -/
structure LongestTail (bs rest : Bytes) : Prop where
  boundary : Boundary bs rest
  begun : Begun rest
  longest : ∀ other, Boundary bs other → Begun other → other.length ≤ rest.length

/-- What a scan leaves is the beginning of a unit, and the parts before it give the text. -/
theorem exists_settled (bs : Bytes) : ∃ done, parts bs = done ++ parts (scan bs).2 ∧
    (scan bs).1 = done.map charOfPart ∧ Begun (scan bs).2 := by
  fun_induction parts bs with
  | case1 =>
    rw [scan_nil]
    exact ⟨[], (parts.eq_def []).symm, rfl, begun_nil⟩
  | case2 b bs ih =>
    by_cases h : Begun (cut b bs).1 ∧ (cut b bs).2 = []
    · have hall : (cut b bs).1 = b :: bs := by
        rw [← append_cut b bs, h.2, List.append_nil]
      have hbegun : Begun (b :: bs) := hall ▸ h.1
      rw [scan_of_begun hbegun]
      exact ⟨[], by rw [List.nil_append, parts], rfl, hbegun⟩
    · rw [scan_cons fun hb hr => h ⟨hb, hr⟩]
      obtain ⟨done, hparts, htext, hbegun⟩ := ih
      exact ⟨(cut b bs).1 :: done, by rw [hparts, List.cons_append],
        by rw [htext, List.map_cons], hbegun⟩

theorem scan_snd_of_last {bs part : Bytes} {done : List Bytes} (h : parts bs = done ++ [part])
    (hbegun : Begun part) : (scan bs).2 = part := by
  fun_induction parts bs generalizing done with
  | case1 => exact absurd h.symm (by simp)
  | case2 b bs ih =>
    cases done with
    | nil =>
      obtain ⟨hpart, hrest⟩ := List.cons.inj h
      have hrest : (cut b bs).2 = [] := by
        rw [← flatten_parts (cut b bs).2, hrest, List.flatten_nil]
      have hall : part = b :: bs := by
        rw [← append_cut b bs, hrest, List.append_nil, hpart]
      rw [← hall, scan_of_begun hbegun]
    | cons first done =>
      rw [List.cons_append] at h
      obtain ⟨-, hrest⟩ := List.cons.inj h
      have hne : (cut b bs).2 ≠ [] := by
        intro e
        rw [e, parts] at hrest
        exact absurd hrest.symm (by simp)
      rw [scan_cons fun _ => hne]
      exact ih hrest

theorem longestTail_scan (bs : Bytes) : LongestTail bs (scan bs).2 := by
  obtain ⟨done, hparts, -, hbegun⟩ := exists_settled bs
  refine ⟨⟨done, _, hparts, flatten_parts _⟩, hbegun, ?_⟩
  rintro other ⟨before, todo, hsplit, rfl⟩ hother
  by_cases hne : todo.flatten = []
  · rw [hne]
    exact Nat.zero_le _
  · have hlast : todo = [todo.flatten] := by
      rw [← parts_of_begun hother hne, (parts_split hsplit).2]
    rw [hlast] at hsplit
    exact Nat.le_of_eq (congrArg List.length (scan_snd_of_last hsplit hother)).symm

theorem scan_fst_eq (bs : Bytes) :
    (scan bs).1 = decode (bs.take (bs.length - (scan bs).2.length)) := by
  obtain ⟨done, hparts, htext, -⟩ := exists_settled bs
  have hbytes : bs = done.flatten ++ (scan bs).2 := by
    conv_lhs => rw [← flatten_parts bs, hparts, List.flatten_append, flatten_parts]
  have hfront {rest : Bytes} (e : bs = done.flatten ++ rest) :
      bs.take (bs.length - rest.length) = done.flatten := by
    rw [e, List.length_append, Nat.add_sub_cancel, List.take_left' rfl]
  rw [hfront hbytes, decode_eq_parts, (parts_split hparts).1, htext]

end Utf8

namespace Utf16

variable (order : ByteOrder)

theorem unitBytes_unit (a b : UInt8) : unitBytes order (unit order a b) = [a, b] := by
  have hword (x y : UInt8) : (x.toUInt16 * 256 + y.toUInt16).toNat = x.toNat * 256 + y.toNat := by
    have := x.toNat_lt
    have := y.toNat_lt
    simp only [UInt16.toNat_add, UInt16.toNat_mul, UInt8.toNat_toUInt16, UInt16.reduceToNat]
    omega
  have hhigh (x y : UInt8) : ((x.toUInt16 * 256 + y.toUInt16) / 256).toUInt8 = x := by
    rw [← UInt8.toNat_inj, UInt16.toNat_toUInt8, UInt16.toNat_div, hword]
    have := x.toNat_lt
    have := y.toNat_lt
    simp only [UInt16.reduceToNat]
    omega
  have hlow (x y : UInt8) : (x.toUInt16 * 256 + y.toUInt16).toUInt8 = y := by
    rw [← UInt8.toNat_inj, UInt16.toNat_toUInt8, hword]
    have := y.toNat_lt
    omega
  cases order with
  | big => rw [unit, unitBytes, hhigh, hlow]
  | little => rw [unit, unitBytes, hhigh, hlow]

/-- The units of a byte string are its bytes two by two, without the odd one. -/
theorem flatMap_units_append (bs : Bytes) :
    (units order bs).1.flatMap (unitBytes order) ++ (units order bs).2 = bs := by
  fun_induction units order bs with
  | case1 a b bs ih =>
    rw [List.flatMap_cons, unitBytes_unit, List.append_assoc, ih]
    rfl
  | case2 odd h => rfl

theorem length_units_snd (bs : Bytes) : (units order bs).2.length = bs.length % 2 := by
  fun_induction units order bs with
  | case1 a b bs ih =>
    rw [ih, List.length_cons, List.length_cons]
    omega
  | case2 odd h =>
    rcases odd with _ | ⟨a, _ | ⟨b, bs⟩⟩
    · rfl
    · rfl
    · exact absurd rfl (h a b bs)

/-- After a unit, it is held back if it is a high surrogate, whatever was held back before. -/
theorem fst_feed (held : Option UInt16) (u : UInt16) :
    (feed held u).1 = if isHigh u then some u else none := by
  have hstart : (start u).1 = if isHigh u then some u else none := by
    unfold start
    split
    · rfl
    · rfl
  cases held with
  | none => exact hstart
  | some high =>
    by_cases hlow : isLow u = true
    · have hhigh : isHigh u = false := by
        rw [Bool.eq_false_iff, ne_eq, isHigh_iff]
        have := isLow_iff.mp hlow
        omega
      simp only [feed, if_pos hlow, hhigh]
      rfl
    · simp only [feed, if_neg hlow]
      exact hstart

theorem fst_run (us : List UInt16) : (run none us).1 = us.getLast?.filter isHigh := by
  induction us using List.reverseRecOn with
  | nil => rfl
  | append_singleton us u _ =>
    rw [run_append, List.getLast?_concat]
    show (feed _ u).1 = _
    rw [fst_feed, Option.filter_some]

end Utf16

namespace Decoder

/-- What a decoder carries after any chunks.  In UTF-8 it is the longest beginning of a unit, at
most three bytes, that ends the input and begins where the lossy scan of all the input begins to
read, and the text so far is that of the input before it.  In UTF-16 it is the odd byte, and of the
units before it the last one if it is a high surrogate. -/
theorem carries_tail (chunks : List Bytes) :
    ((chunks.foldl push Charset.utf8.decoder).pending.length ≤ 3 ∧
      Utf8.LongestTail chunks.flatten (chunks.foldl push Charset.utf8.decoder).pending ∧
      (chunks.foldl push Charset.utf8.decoder).out =
        String.ofList (Utf8.decode (chunks.flatten.take (chunks.flatten.length -
          (chunks.foldl push Charset.utf8.decoder).pending.length)))) ∧
    ∀ order, ∃ us : List UInt16,
      us.flatMap (Utf16.unitBytes order) ++
        (chunks.foldl push (Charset.utf16 order).decoder).pending = chunks.flatten ∧
      (chunks.foldl push (Charset.utf16 order).decoder).pending.length =
        chunks.flatten.length % 2 ∧
      (chunks.foldl push (Charset.utf16 order).decoder).high =
        us.getLast?.filter Utf16.isHigh := by
  constructor
  · rw [foldl_push_decoder]
    have htail := Utf8.longestTail_scan chunks.flatten
    exact ⟨htail.begun.length_le, htail,
      congrArg String.ofList (Utf8.scan_fst_eq chunks.flatten)⟩
  · intro order
    rw [foldl_push_decoder]
    exact ⟨(Utf16.units order chunks.flatten).1, Utf16.flatMap_units_append order _,
      Utf16.length_units_snd order _, Utf16.fst_run _⟩

end Decoder
end StoreClient
