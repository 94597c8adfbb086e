import StoreClient.Proofs.ByteSeq.Access
import StoreClient.Proofs.ByteSeq.Order
import StoreClient.Proofs.ByteSeq.Refinement
import StoreClient.Tasks.Notifier

/-! # Who is subscribed

A pattern covers keys by its bytes (`Covers`), and a sound pattern matches a sound key accordingly,
however the two lie in memory (`matchesKey_eq`).

What a notifier keeps is told by the calls that were made on it: a subscription stands until a later
call names its number (`Notifier.standing`).  The counter of numbers is a word and begins anew after
the largest one; fewer than 2^64 calls do not come to that, so no number is given twice and a removal
concerns at most one subscription (`Notifier.stands_replay`). -/

namespace StoreClient.Tasks

/-! ### Patterns -/

/-- A pattern with a wildcard at its end covers the keys that begin with the rest of it, any other
pattern the key with its own bytes. -/
def Covers (pattern key : Bytes) : Prop :=
  if pattern.getLast? = some wildcard then pattern.dropLast <+: key else key = pattern

instance (pattern key : Bytes) : Decidable (Covers pattern key) := by
  unfold Covers
  infer_instance

section
variable {pattern key : ByteSeq}

theorem contentEq_eq_decide (hp : pattern.Sound) (hk : key.Sound) :
    pattern.contentEq key = decide (key.content = pattern.content) := by
  rw [Bool.eq_iff_iff, hp.contentEq_iff hk, decide_eq_true_iff]
  exact eq_comm

theorem front_cases (h : key.Sound) (n : Nat) :
    (∃ front, key.subSeq 0 n = .ok front ∧ front.Sound ∧ front.content = key.content.take n ∧
        n ≤ key.content.length) ∨
      (∃ e, key.subSeq 0 n = .error e) ∧ key.content.length < n := by
  have hsub := ByteSeq.Refines.subSeq ⟨h, rfl⟩ 0 n
  unfold Bytes.slice at hsub
  by_cases hn : key.content.length < n
  · rw [if_pos (.inr hn)] at hsub
    exact .inr ⟨⟨_, hsub.of_error⟩, hn⟩
  · rw [if_neg (by omega)] at hsub
    obtain ⟨front, hfront, hsound, hcontent⟩ := hsub.of_ok
    exact .inl ⟨front, hfront, hsound, hcontent, Nat.not_lt.mp hn⟩

theorem matchesKey_of_wildcard (hp : pattern.Sound) (hk : key.Sound) {n : Nat}
    (hn : pattern.length = n + 1) (hget : pattern.get n = .ok wildcard) :
    matchesKey pattern key = .ok (decide (pattern.content.take n <+: key.content)) := by
  have hlength := hp.length_content
  have hnonempty : ¬pattern.isEmpty = true := by
    rw [ByteSeq.isEmpty_iff]
    omega
  rw [matchesKey, if_neg hnonempty, hn, Nat.add_sub_cancel, hget]
  simp only [ne_eq, not_true_eq_false, if_false]
  obtain ⟨stem, hstem, hstemSound, hstemContent, -⟩ | ⟨-, hshort⟩ := front_cases hp n
  · have hstemLength : (pattern.content.take n).length = n := List.length_take_of_le (by omega)
    rw [hstem]
    obtain ⟨head, hhead, hheadSound, hheadContent, -⟩ | ⟨⟨e, hhead⟩, hshort⟩ := front_cases hk n
    · rw [hhead]
      simp only
      rw [contentEq_eq_decide hstemSound hheadSound, hstemContent, hheadContent]
      congr 1
      rw [decide_eq_decide, List.prefix_iff_eq_take, hstemLength]
      exact eq_comm
    · -- the key is too short for the stem
      have hno : ¬pattern.content.take n <+: key.content := by
        intro hprefix
        have hle := hprefix.length_le
        omega
      rw [hhead, decide_eq_false hno]
  · omega

/-- A sound pattern matches the sound keys that it covers. -/
theorem matchesKey_eq (hp : pattern.Sound) (hk : key.Sound) :
    matchesKey pattern key = .ok (decide (Covers pattern.content key.content)) := by
  have hlength := hp.length_content
  by_cases hempty : pattern.isEmpty = true
  · have hnil : pattern.content = [] := by
      apply List.eq_nil_of_length_eq_zero
      rw [hlength, ByteSeq.isEmpty_iff.mp hempty]
    rw [matchesKey, if_pos hempty, contentEq_eq_decide hp hk]
    simp only [Covers, hnil, List.getLast?_nil, reduceCtorEq, if_false]
  · obtain ⟨n, hn⟩ : ∃ n, pattern.length = n + 1 := by
      rw [ByteSeq.isEmpty_iff] at hempty
      exact Nat.exists_eq_succ_of_ne_zero hempty
    have hlt : n < pattern.content.length := by omega
    have hget := hp.get_of_lt hlt
    have hlast : pattern.content.getLast? = some pattern.content[n] := by
      rw [List.getLast?_eq_getElem?, hlength, hn, Nat.add_sub_cancel, List.getElem?_eq_getElem hlt]
    by_cases hwild : pattern.content[n] = wildcard
    · rw [hwild] at hget hlast
      rw [matchesKey_of_wildcard hp hk hn hget]
      congr 1
      rw [decide_eq_decide, Covers, if_pos hlast, List.dropLast_eq_take, hlength, hn,
        Nat.add_sub_cancel]
    · have hplain : pattern.content.getLast? ≠ some wildcard := by
        rw [hlast]
        intro h
        exact hwild (Option.some.inj h)
      rw [matchesKey, if_neg hempty, hn, Nat.add_sub_cancel, hget]
      simp only [ne_eq, hwild, not_false_eq_true, if_true]
      rw [contentEq_eq_decide hp hk]
      congr 1
      rw [decide_eq_decide, Covers, if_neg hplain]

end

theorem Notifier.select_eq {α : Type} {key : ByteSeq} (hk : key.Sound)
    {subscriptions : List (Subscription α)} (hs : ∀ s ∈ subscriptions, s.pattern.Sound) :
    select key subscriptions = .ok ((subscriptions.filter fun s =>
      decide (Covers s.pattern.content key.content)).map (·.listener)) := by
  induction subscriptions with
  | nil => rfl
  | cons s rest ih =>
    obtain ⟨hhead, htail⟩ := List.forall_mem_cons.mp hs
    rw [select, matchesKey_eq hhead hk, ih htail]
    by_cases hcovers : Covers s.pattern.content key.content
    · simp only [hcovers, decide_true, List.filter_cons_of_pos]
      rfl
    · simp only [hcovers, decide_false, Bool.false_eq_true, not_false_eq_true,
        List.filter_cons_of_neg]

/-! ### Calls on a notifier -/

namespace Notifier

inductive Call (α : Type) where
  | subscribe (pattern : ByteSeq) (listener : α)
  | unsubscribe (id : Nat)

inductive Reply where
  | subscribed (id : Nat)
  | unsubscribed (found : Bool)
  deriving DecidableEq, Repr

def Reply.number? : Reply → Option Nat
  | subscribed id => some id
  | unsubscribed _ => none

variable {α : Type}

/-- The pattern of a subscription is built over lawful buffers. -/
def Call.Lawful : Call α → Prop
  | subscribe pattern _ => pattern.Built Buffer.Lawful
  | unsubscribe _ => True

/-- The call removes the subscription with a number. -/
def Call.removes (id : Nat) : Call α → Bool
  | subscribe _ _ => false
  | unsubscribe id' => id' == id

def call (n : Notifier α) : Call α → Reply × Notifier α
  | .subscribe pattern listener =>
    let (id, n) := n.subscribe pattern listener
    (.subscribed id, n)
  | .unsubscribe id =>
    let (found, n) := n.unsubscribe id
    (.unsubscribed found, n)

/-- Calls in order, each with what it answered, and what they leave. -/
def replay : Notifier α → List (Call α) → List (Call α × Reply) × Notifier α
  | n, [] => ([], n)
  | n, c :: later =>
    let rest := replay (n.call c).2 later
    ((c, (n.call c).1) :: rest.1, rest.2)

def numbers (history : List (Call α × Reply)) : List Nat := history.filterMap (·.2.number?)

/-- The subscriptions that stand after some calls: no later call has removed them. -/
def standing : List (Call α × Reply) → List (Subscription α)
  | (.subscribe pattern listener, .subscribed id) :: later =>
    if later.any (·.1.removes id) then standing later
    else ⟨id, pattern, listener⟩ :: standing later
  | _ :: later => standing later
  | [] => []

/-- Of some subscriptions the one with a number is taken out; where there is none, all stay. -/
inductive Removal (id : Nat) : List (Subscription α) → Bool → List (Subscription α) → Prop where
  | found {before after : List (Subscription α)} {s : Subscription α} (number : s.id = id) :
    Removal id (before ++ s :: after) true (before ++ after)
  | missing {subscriptions : List (Subscription α)} (other : ∀ s ∈ subscriptions, s.id ≠ id) :
    Removal id subscriptions false subscriptions

/-- A notifier after calls with their answers. -/
structure Stands (n : Notifier α) (history : List (Call α × Reply)) : Prop where
  numbers_nodup : (numbers history).Nodup
  subscriptions : n.subscriptions = standing history
  unsubscribe : ∀ id, Removal id (standing history) (n.unsubscribe id).1
    (n.unsubscribe id).2.subscriptions

theorem replay_append (n : Notifier α) (calls more : List (Call α)) :
    (replay n (calls ++ more)).2 = (replay (replay n calls).2 more).2 := by
  induction calls generalizing n with
  | nil => rfl
  | cons c later ih => exact ih (n.call c).2

theorem toNat_add_one {x : UInt64} (h : x.toNat < wordMax) : (x + 1).toNat = x.toNat + 1 := by
  rw [UInt64.toNat_add]
  exact Nat.mod_eq_of_lt (Nat.succ_lt_succ h)

/-- The numbers rise from the counter on, as long as it does not come to its end. -/
theorem numbers_replay (n : Notifier α) (calls : List (Call α))
    (h : n.nextId.toNat + calls.length ≤ wordMax) :
    (∀ id ∈ numbers (replay n calls).1, n.nextId.toNat ≤ id) ∧
      (numbers (replay n calls).1).Pairwise (· < ·) := by
  induction calls generalizing n with
  | nil => exact ⟨nofun, .nil⟩
  | cons c later ih =>
    rw [List.length_cons] at h
    cases c with
    | subscribe pattern listener =>
      have hnumbers : numbers (replay n (.subscribe pattern listener :: later)).1 =
          n.nextId.toNat :: numbers (replay (n.call (.subscribe pattern listener)).2 later).1 := rfl
      have hnext : (n.call (.subscribe pattern listener)).2.nextId.toNat = n.nextId.toNat + 1 :=
        toNat_add_one (by omega)
      obtain ⟨hle, hrise⟩ := ih (n.call (.subscribe pattern listener)).2 (by omega)
      rw [hnext] at hle
      rw [hnumbers]
      constructor
      · intro id hid
        rcases List.mem_cons.mp hid with rfl | hid
        · exact Nat.le_refl _
        · exact Nat.le_of_succ_le (hle id hid)
      · exact List.pairwise_cons.mpr ⟨hle, hrise⟩
    | unsubscribe id =>
      have hsame : (n.call (.unsubscribe id)).2.nextId = n.nextId := rfl
      exact ih (n.call (.unsubscribe id)).2 (by rw [hsame]; omega)

/-- Subscriptions stay where they are until a call removes them, and new ones join them at the
end. -/
theorem subscriptions_replay (n : Notifier α) (calls : List (Call α)) :
    (replay n calls).2.subscriptions =
      n.subscriptions.filter (fun s => !(replay n calls).1.any (·.1.removes s.id)) ++
        standing (replay n calls).1 := by
  induction calls generalizing n with
  | nil => simp [replay, standing]
  | cons c later ih =>
    have hlater := ih (n.call c).2
    rw [show (replay n (c :: later)).2 = (replay (n.call c).2 later).2 from rfl, hlater]
    rw [show (replay n (c :: later)).1 =
      (c, (n.call c).1) :: (replay (n.call c).2 later).1 from rfl]
    generalize (replay (n.call c).2 later).1 = history
    cases c with
    | subscribe pattern listener =>
      have hnew : (n.call (.subscribe pattern listener)).2.subscriptions =
          n.subscriptions ++ [⟨n.nextId.toNat, pattern, listener⟩] := rfl
      rw [hnew, List.filter_append, List.append_assoc]
      congr 1
      show _ = if history.any (·.1.removes n.nextId.toNat) then standing history
        else ⟨n.nextId.toNat, pattern, listener⟩ :: standing history
      cases hremoved : history.any (·.1.removes n.nextId.toNat) with
      | false => rw [List.filter_cons_of_pos (by simp only [hremoved]; rfl)]; rfl
      | true => rw [List.filter_cons_of_neg (by simp [hremoved])]; rfl
    | unsubscribe id =>
      have hleft : (n.call (.unsubscribe id)).2.subscriptions =
          n.subscriptions.filter (·.id != id) := rfl
      rw [hleft, List.filter_filter]
      congr 1
      apply List.filter_congr
      intro s _
      simp only [List.any_cons, Call.removes, Bool.not_or]
      rw [Bool.and_comm]
      congr 1
      rw [bne, Bool.beq_comm]

theorem ids_standing (history : List (Call α × Reply)) :
    ((standing history).map (·.id)).Sublist (numbers history) := by
  induction history using standing.induct with
  | case1 pattern listener id later hremoved ih =>
    rw [standing, if_pos hremoved]
    exact ih.cons id
  | case2 pattern listener id later hremoved ih =>
    rw [standing, if_neg hremoved]
    exact ih.cons_cons id
  | case3 first later hother ih =>
    rw [standing]
    · rw [numbers, List.filterMap_cons]
      cases first.2.number? with
      | none => exact ih
      | some id => exact ih.cons id
    · exact hother
  | case4 => exact List.nil_sublist _

/-- Where numbers are not given twice, a removal takes out one subscription. -/
theorem removal_of_nodup {subscriptions : List (Subscription α)}
    (h : (subscriptions.map (·.id)).Nodup) (id : Nat) :
    Removal id subscriptions (subscriptions.any (·.id == id))
      (subscriptions.filter (·.id != id)) := by
  by_cases hfound : ∃ s ∈ subscriptions, s.id = id
  · obtain ⟨s, hs, hid⟩ := hfound
    obtain ⟨before, after, rfl⟩ := List.append_of_mem hs
    rw [List.map_append, List.map_cons, List.nodup_append, List.nodup_cons] at h
    obtain ⟨-, ⟨hafter, -⟩, hdistinct⟩ := h
    have hbefore : s.id ∉ before.map (·.id) := by
      intro hmem
      exact hdistinct _ hmem _ List.mem_cons_self rfl
    have hany : (before ++ s :: after).any (·.id == id) = true :=
      List.any_eq_true.mpr ⟨s, hs, beq_iff_eq.mpr hid⟩
    have hkept : ∀ rest : List (Subscription α), s.id ∉ rest.map (·.id) →
        rest.filter (·.id != id) = rest := by
      intro rest hrest
      rw [List.filter_eq_self]
      intro x hx
      rw [bne_iff_ne]
      intro hxid
      exact hrest (List.mem_map.mpr ⟨x, hx, hxid.trans hid.symm⟩)
    rw [hany, List.filter_append, List.filter_cons_of_neg (by simp [hid]), hkept before hbefore,
      hkept after hafter]
    exact .found hid
  · have hother : ∀ s ∈ subscriptions, s.id ≠ id := fun s hs hid => hfound ⟨s, hs, hid⟩
    have hany : subscriptions.any (·.id == id) = false := by
      rw [List.any_eq_false]
      intro s hs
      rw [beq_iff_eq]
      exact hother s hs
    have hkept : subscriptions.filter (·.id != id) = subscriptions := by
      rw [List.filter_eq_self]
      intro s hs
      exact bne_iff_ne.mpr (hother s hs)
    rw [hany, hkept]
    exact .missing hother

/-- A new notifier after calls, fewer than its counter can count. -/
theorem stands_replay {calls : List (Call α)} (h : calls.length < Nat.pow 2 64) :
    (replay {} calls).2.Stands (replay {} calls).1 := by
  have hroom : ({} : Notifier α).nextId.toNat + calls.length ≤ wordMax := by
    have hzero : ({} : Notifier α).nextId.toNat = 0 := rfl
    rw [← wordMax_eq] at h
    omega
  have hnumbers : (numbers (replay ({} : Notifier α) calls).1).Nodup :=
    (numbers_replay {} calls hroom).2.imp Nat.ne_of_lt
  have hstanding : (replay ({} : Notifier α) calls).2.subscriptions =
      standing (replay {} calls).1 := subscriptions_replay {} calls
  refine ⟨hnumbers, hstanding, ?_⟩
  intro id
  rw [← hstanding]
  apply removal_of_nodup
  rw [hstanding]
  exact hnumbers.sublist (ids_standing _)

theorem mem_of_mem_standing {history : List (Call α × Reply)} {s : Subscription α}
    (h : s ∈ standing history) : Call.subscribe s.pattern s.listener ∈ history.map (·.1) := by
  induction history using standing.induct with
  | case1 pattern listener id later hremoved ih =>
    rw [standing, if_pos hremoved] at h
    exact List.mem_cons_of_mem _ (ih h)
  | case2 pattern listener id later hremoved ih =>
    rw [standing, if_neg hremoved] at h
    rcases List.mem_cons.mp h with rfl | h
    · exact List.mem_cons_self
    · exact List.mem_cons_of_mem _ (ih h)
  | case3 first later hother ih =>
    rw [standing] at h
    · exact List.mem_cons_of_mem _ (ih h)
    · exact hother
  | case4 => cases h

theorem calls_replay (n : Notifier α) (calls : List (Call α)) :
    (replay n calls).1.map (·.1) = calls := by
  induction calls generalizing n with
  | nil => rfl
  | cons c later ih =>
    rw [replay, List.map_cons, ih]

end Notifier
end StoreClient.Tasks
