import StoreClient.ByteSeq.Compare
import StoreClient.Proofs.ByteSeq.Shape

/-! # The order of sequences

Sequences compare as the byte lists that they hold, whatever their shapes.  `Bytes.compare` decides
the lexicographic order `<` of lists of bytes, in which a proper prefix comes first.  Comparing the
runs of two traversals piece by piece decides the same order on what is left of the two
(`Chunks.compareFrom_eq`): a piece either decides, or is equal on both sides and falls away
(`Bytes.compare_append`), and refilling a side that ran dry changes nothing of what is left
(`Chunks.refill_spec`).  So every way to compare gives one answer (`ByteSeq.built_order`). -/

namespace StoreClient

/-! ### The order of byte strings -/

namespace Bytes

theorem compare_eq_lt_iff {a b : Bytes} : compare a b = .lt ↔ a < b := by
  fun_induction compare a b with
  | case1 => simp
  | case2 => simp
  | case3 => simp
  | case4 a as b bs h => simp [List.cons_lt_cons_iff, h]
  | case5 a as b bs h h' => simp [List.cons_lt_cons_iff, h, (UInt8.ne_of_lt h').symm]
  | case6 a as b bs h h' ih =>
    have hab : a = b := UInt8.le_antisymm (UInt8.not_lt.mp h') (UInt8.not_lt.mp h)
    rw [ih, List.cons_lt_cons_iff, hab]
    simp

theorem compare_swap (a b : Bytes) : (compare a b).swap = compare b a := by
  fun_induction compare a b with
  | case1 => rfl
  | case2 => rfl
  | case3 => rfl
  | case4 a as b bs h => simp [compare, h, UInt8.not_lt.mpr (UInt8.le_of_lt h)]
  | case5 a as b bs h h' => simp [compare, h']
  | case6 a as b bs h h' ih => simp [compare, h, h', ih]

theorem compare_eq_gt_iff {a b : Bytes} : compare a b = .gt ↔ b < a := by
  rw [← compare_eq_lt_iff, ← compare_swap b a, Ordering.swap_eq_gt]

/-- The front of two byte strings decides, unless it is equal: then the unread rests do. -/
theorem compare_append (as bs xs ys : Bytes) :
    compare (as ++ xs) (bs ++ ys) = (compareFront as bs).1.then
      (compare ((compareFront as bs).2.1 ++ xs) ((compareFront as bs).2.2 ++ ys)) := by
  fun_induction compareFront as bs with
  | case1 a as b bs h => simp [compare, h]
  | case2 a as b bs h h' => simp [compare, h, h']
  | case3 a as b bs h h' ih => simp [compare, h, h', ih]
  | case4 => simp

end Bytes

/-! ### Comparing runs -/

namespace Chunks

/-- Refilling keeps what is left, and comes up with nothing only at the end. -/
theorem refill_spec {ch : Chunks} (h : ch.Sound) (unread : Bytes) :
    (refill unread ch).2.Sound ∧
      (refill unread ch).1 ++ (refill unread ch).2.content = unread ++ ch.content ∧
      ((refill unread ch).1 = [] → unread ++ ch.content = []) := by
  unfold refill
  cases unread with
  | cons b bs => exact ⟨h, rfl, nofun⟩
  | nil =>
    cases hn : ch.next? with
    | none =>
      have hc := content_of_next?_eq_none h hn
      exact ⟨nofun, hc.symm, fun _ => hc⟩
    | some p =>
      obtain ⟨run, rest⟩ := p
      obtain ⟨hc, hrest⟩ := content_of_next?_eq_some h hn
      have hne : run ≠ [] := (next?_eq_some hn).1
      exact ⟨hrest, hc.symm, fun he => absurd he hne⟩

/-- What is left of two traversals compares as one piece does, and then as what is left after it. -/
theorem compare_refill {lhs rhs : Chunks} (hl : lhs.Sound) (hr : rhs.Sound) (a b : Bytes) :
    Bytes.compare (a ++ lhs.content) (b ++ rhs.content) =
      let front := Bytes.compareFront (refill a lhs).1 (refill b rhs).1
      front.1.then (Bytes.compare (front.2.1 ++ (refill a lhs).2.content)
        (front.2.2 ++ (refill b rhs).2.content)) := by
  obtain ⟨-, hlc, -⟩ := refill_spec hl a
  obtain ⟨-, hrc, -⟩ := refill_spec hr b
  rw [← hlc, ← hrc]
  exact Bytes.compare_append _ _ _ _

/-- Piece by piece, two traversals compare as what is left of them. -/
theorem compareFrom_eq {a b : Bytes} {lhs rhs : Chunks} (hl : lhs.Sound) (hr : rhs.Sound) :
    compareFrom a lhs b rhs = Bytes.compare (a ++ lhs.content) (b ++ rhs.content) := by
  fun_induction compareFrom a lhs b rhs with
  | case1 a lhs b rhs left right hleft hright =>
    obtain ⟨-, -, hlnil⟩ := refill_spec hl a
    obtain ⟨-, -, hrnil⟩ := refill_spec hr b
    rw [hlnil (List.isEmpty_iff.mp hleft), hrnil (List.isEmpty_iff.mp hright)]
    rfl
  | case2 a lhs b rhs left right hleft hright =>
    obtain ⟨-, -, hlnil⟩ := refill_spec hl a
    obtain ⟨-, hrc, -⟩ := refill_spec hr b
    obtain ⟨y, ys, hy⟩ := List.exists_cons_of_ne_nil (mt List.isEmpty_iff.mpr hright)
    rw [hlnil (List.isEmpty_iff.mp hleft), ← hrc, hy]
    rfl
  | case3 a lhs b rhs left right hleft hright =>
    obtain ⟨-, hlc, -⟩ := refill_spec hl a
    obtain ⟨-, -, hrnil⟩ := refill_spec hr b
    obtain ⟨x, xs, hx⟩ := List.exists_cons_of_ne_nil (mt List.isEmpty_iff.mpr hleft)
    rw [hrnil (List.isEmpty_iff.mp hright), ← hlc, hx]
    rfl
  | case4 a lhs b rhs left right hleft hright front heq ih =>
    have hlt : Bytes.compare (a ++ lhs.content) (b ++ rhs.content) = front.1.then _ :=
      compare_refill hl hr a b
    rw [ih (refill_spec hl a).1 (refill_spec hr b).1, hlt, heq]
    rfl
  | case5 a lhs b rhs left right hleft hright front hfront =>
    have hlt : Bytes.compare (a ++ lhs.content) (b ++ rhs.content) = front.1.then _ :=
      compare_refill hl hr a b
    rw [hlt, hfront]
    rfl
  | case6 a lhs b rhs left right hleft hright front hfront =>
    have hgt : Bytes.compare (a ++ lhs.content) (b ++ rhs.content) = front.1.then _ :=
      compare_refill hl hr a b
    rw [hgt, hfront]
    rfl

/-! ### Spelling a byte string -/

theorem strip_eq_ok_iff {rest run left : Bytes} :
    strip rest run = .ok left ↔ rest = run ++ left := by
  unfold strip
  constructor
  · intro h
    split at h
    · next hp =>
      obtain rfl := Except.ok.inj h
      obtain ⟨left, rfl⟩ := List.isPrefixOf_iff_prefix.mp hp
      rw [List.drop_left]
    · exact nomatch h
  · rintro rfl
    have hp : run.isPrefixOf (run ++ left) = true :=
      List.isPrefixOf_iff_prefix.mpr (List.prefix_append run left)
    rw [if_pos hp, List.drop_left]

/-- Taking run after run off the front succeeds on what starts with all of them. -/
theorem foldlM_strip_eq_ok_iff {runs : List Bytes} {bs rest : Bytes} :
    runs.foldlM strip bs = .ok rest ↔ bs = runs.flatten ++ rest := by
  induction runs generalizing bs with
  | nil =>
    rw [List.flatten_nil, List.nil_append]
    exact ⟨Except.ok.inj, congrArg Except.ok⟩
  | cons run runs ih =>
    rw [List.foldlM_cons, List.flatten_cons, List.append_assoc]
    constructor
    · intro h
      cases hs : strip bs run with
      | error e =>
        rw [hs] at h
        exact nomatch h
      | ok left =>
        rw [hs] at h
        rw [strip_eq_ok_iff.mp hs, ih.mp h]
    · intro h
      rw [strip_eq_ok_iff.mpr h]
      exact ih.mpr rfl

theorem spell_iff {ch : Chunks} {bs : Bytes} : ch.spell bs = true ↔ ch.toList.flatten = bs := by
  unfold spell
  rw [foldUntil_eq]
  constructor
  · intro h
    split at h
    · next rest hrest =>
      have hbs := foldlM_strip_eq_ok_iff.mp hrest
      rw [hbs, List.isEmpty_iff.mp h, List.append_nil]
    · exact nomatch h
  · rintro rfl
    have hall : ch.toList.foldlM strip ch.toList.flatten = .ok [] :=
      foldlM_strip_eq_ok_iff.mpr (List.append_nil _).symm
    rw [hall]
    rfl

end Chunks

/-! ### Sequences -/

namespace ByteSeq

variable {s t : ByteSeq}

theorem Sound.compareFrom_chunks (hs : s.Sound) (ht : t.Sound) :
    Chunks.compareFrom [] s.chunks [] t.chunks = Bytes.compare s.content t.content := by
  rw [Chunks.compareFrom_eq hs.chunks ht.chunks, hs.content_chunks, ht.content_chunks]
  rfl

theorem Sound.compare_eq (hs : s.Sound) (ht : t.Sound) :
    compare s t = Bytes.compare s.content t.content := by
  unfold compare
  split
  · next as bs hsc htc => rw [hs.contiguous?_eq hsc, ht.contiguous?_eq htc]
  · exact hs.compareFrom_chunks ht

theorem Sound.contentEq_iff (hs : s.Sound) (ht : t.Sound) :
    contentEq s t = true ↔ s.content = t.content := by
  unfold contentEq
  rw [← hs.length_content, ← ht.length_content]
  by_cases hlen : s.content.length ≠ t.content.length
  · have hne : s.content ≠ t.content := fun h => hlen (congrArg List.length h)
    rw [if_pos hlen]
    exact ⟨nofun, fun h => absurd h hne⟩
  rw [if_neg hlen]
  split
  · next as bs hsc htc => rw [hs.contiguous?_eq hsc, ht.contiguous?_eq htc, beq_iff_eq]
  · rw [beq_iff_eq, hs.compare_eq ht, Bytes.compare_eq_iff]

theorem Sound.eqBytes_iff (hs : s.Sound) {bs : Bytes} :
    s.eqBytes bs = true ↔ s.content = bs := by
  unfold eqBytes
  rw [Bool.and_eq_true, Chunks.spell_iff, hs.flatten_chunks, beq_iff_eq, ← hs.length_content]
  exact and_iff_right_of_imp (congrArg List.length)

/-- All the ways to compare two sequences answer for the byte lists `xs` and `ys`. -/
structure ComparesAs (s t : ByteSeq) (xs ys : Bytes) : Prop where
  lt_iff : compare s t = .lt ↔ xs < ys
  eq_iff : compare s t = .eq ↔ xs = ys
  gt_iff : compare s t = .gt ↔ ys < xs
  cmp_eq : Ord.compare s t = compare s t
  partialCompare_eq : partialCompare s t = some (compare s t)
  contentEq_iff : contentEq s t = true ↔ xs = ys
  beq_iff : (s == t) = true ↔ xs = ys
  /-- Where both sequences lie in one piece, comparing the pieces and comparing the runs agree. -/
  inPlace : ∀ as bs, s.toArray = .ok as → t.toArray = .ok bs →
    Bytes.compare as bs = Chunks.compareFrom [] s.chunks [] t.chunks ∧
      (as == bs) = (Chunks.compareFrom [] s.chunks [] t.chunks == .eq)

/-- The bytes that a sequence shows are `xs`, and it equals these bytes and texts alone. -/
structure EqualsAs (s : ByteSeq) (xs : Bytes) : Prop where
  toBytes_eq : s.toBytes = xs
  eqBytes_iff : ∀ bs, s.eqBytes bs = true ↔ xs = bs
  eqText_iff : ∀ cs, s.eqText cs = true ↔ xs = Utf8.encode cs

theorem Sound.equalsAs (hs : s.Sound) : s.EqualsAs s.content where
  toBytes_eq := hs.toBytes_eq
  eqBytes_iff _ := hs.eqBytes_iff
  eqText_iff _ := hs.eqBytes_iff

theorem toArray_eq_ok {bs : Bytes} (h : s.toArray = .ok bs) : s.contiguous? = some bs := by
  unfold toArray at h
  split at h
  · next as has =>
    obtain rfl := Except.ok.inj h
    exact has
  · exact nomatch h

theorem Sound.comparesAs (hs : s.Sound) (ht : t.Sound) : ComparesAs s t s.content t.content where
  lt_iff := by rw [hs.compare_eq ht, Bytes.compare_eq_lt_iff]
  eq_iff := by rw [hs.compare_eq ht, Bytes.compare_eq_iff]
  gt_iff := by rw [hs.compare_eq ht, Bytes.compare_eq_gt_iff]
  cmp_eq := rfl
  partialCompare_eq := rfl
  contentEq_iff := hs.contentEq_iff ht
  beq_iff := hs.contentEq_iff ht
  inPlace as bs has hbs := by
    have hxs := hs.contiguous?_eq (toArray_eq_ok has)
    have hys := ht.contiguous?_eq (toArray_eq_ok hbs)
    rw [hs.compareFrom_chunks ht, hxs, hys]
    refine ⟨rfl, ?_⟩
    rw [Bool.eq_iff_iff, beq_iff_eq, beq_iff_eq, Bytes.compare_eq_iff]

/-- Sequences that the operations build over lawful buffers compare by their bytes alone. -/
theorem built_order (hs : Built Buffer.Lawful s) (ht : Built Buffer.Lawful t) :
    s.EqualsAs s.content ∧ ComparesAs s t s.content t.content :=
  ⟨hs.tidy.sound.equalsAs, hs.tidy.sound.comparesAs ht.tidy.sound⟩

def ringed : ByteSeq := concat (.ofBuffer (.ring [1, 2, 200] [4, 5])) (array [6, 7]) 7

/-- The first bytes of a range of `ringed`, cut elsewhere. -/
def ringedFront : ByteSeq := concat (array [2]) (array [200, 4]) 3

theorem built_order_of_ringed :
    (slice ringed 1 5).EqualsAs [2, 200, 4, 5, 6] ∧
      ComparesAs (slice ringed 1 5) ringedFront [2, 200, 4, 5, 6] [2, 200, 4] ∧
      compare ringedFront (slice ringed 1 5) = .lt ∧
      (slice ringed 1 5).eqBytes [2, 200, 4, 5, 6] = true := by
  have hring : (Buffer.ring [1, 2, 200] [4, 5]).Lawful := ⟨_, Buffer.holds_ring _ _⟩
  have hsize : (Buffer.ring [1, 2, 200] [4, 5]).size ≤ wordMax := by decide
  have harray : ∀ bs : Bytes, bs.length ≤ 2 → Built Buffer.Lawful (array bs) :=
    fun bs h => .array (Nat.le_trans h (by decide))
  have hringed : Built Buffer.Lawful ringed :=
    .tryConcat (.buffer hring hsize) (harray [6, 7] (by decide)) rfl
  have hcut : ringed.subSeq 1 6 = .ok (slice ringed 1 5) := rfl
  have hrange : Built Buffer.Lawful (slice ringed 1 5) := .subSeq hringed hcut
  have hfront : Built Buffer.Lawful ringedFront :=
    .tryConcat (harray [2] (by decide)) (harray [200, 4] (by decide)) rfl
  obtain ⟨hequal, hcompare⟩ := built_order hrange hfront
  have hless := (built_order hfront hrange).2.lt_iff.mpr (by decide)
  exact ⟨hequal, hcompare, hless, (hequal.eqBytes_iff _).mpr rfl⟩

end ByteSeq
end StoreClient
