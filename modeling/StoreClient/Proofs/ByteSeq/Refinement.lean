import StoreClient.ByteSeq.Expr
import StoreClient.Proofs.ByteSeq.Content
import Mathlib.Data.List.Forall2

/-! # Sequences refine byte lists

The plain model of an expression (`Expr.plain`) builds a byte list with `++` and `window` and says
itself when an operation fails: a concatenation when the lengths pass a word, a range when it does
not lie inside, a copy when an array cannot hold it.  A sequence refines a byte list if it is sound
and has it as content (`ByteSeq.Refines`).  Each operation on sequences that refine lists agrees
with the operation on the lists: the same failure, or a sequence that refines the result.  So a
program of expressions, with any sharing, behaves as its plain model (`ByteSeq.program_agrees`). -/

namespace StoreClient

/-- Two outcomes agree: the same failure, or values in a relation. -/
inductive Agree {ε α β : Type} (R : α → β → Prop) : Except ε α → Except ε β → Prop
  | value {a : α} {b : β} (related : R a b) : Agree R (.ok a) (.ok b)
  | failure (e : ε) : Agree R (.error e) (.error e)

theorem ByteSeq.rounds_succ {α : Type} (f : Nat → α → Outcome α) (n i : Nat) (a : α) :
    rounds f (n + 1) i a = f i a >>= rounds f n (i + 1) := by
  rw [rounds]
  cases f i a with
  | ok a' => rfl
  | error e => rfl

namespace Agree

section
variable {ε α β γ δ : Type} {R : α → β → Prop} {S : γ → δ → Prop}

theorem bind {x : Except ε α} {y : Except ε β} {f : α → Except ε γ} {g : β → Except ε δ}
    (h : Agree R x y) (k : ∀ a b, R a b → Agree S (f a) (g b)) : Agree S (x >>= f) (y >>= g) := by
  cases h with
  | value related => exact k _ _ related
  | failure e => exact .failure e

theorem mono {S : α → β → Prop} {x : Except ε α} {y : Except ε β} (h : Agree R x y)
    (k : ∀ a b, R a b → S a b) : Agree S x y := by
  cases h with
  | value related => exact .value (k _ _ related)
  | failure e => exact .failure e

theorem ofExcept {x : Except Error α} {y : Except Error β} (h : Agree R x y) :
    Agree R (ByteSeq.ofExcept x) (ByteSeq.ofExcept y) := by
  cases h with
  | value related => exact .value related
  | failure e => exact .failure _

theorem of_ok {x : Except ε α} {b : β} (h : Agree R x (.ok b)) : ∃ a, x = .ok a ∧ R a b := by
  cases h with
  | value related => exact ⟨_, rfl, related⟩

theorem of_error {x : Except ε α} {e : ε} (h : Agree R x (.error e : Except ε β)) :
    x = .error e := by
  cases h with
  | failure e => rfl

theorem rounds {f : Nat → α → Outcome α} {g : Nat → β → Outcome β}
    (step : ∀ i a b, R a b → Agree R (f i a) (g i b)) (n i : Nat) {a : α} {b : β} (h : R a b) :
    Agree R (ByteSeq.rounds f n i a) (ByteSeq.rounds g n i b) := by
  induction n generalizing i a b with
  | zero => exact .value h
  | succ n ih =>
    rw [ByteSeq.rounds_succ, ByteSeq.rounds_succ]
    exact (step i a b h).bind fun a' b' h' => ih (i + 1) h'

end

end Agree

/-! ### Operations on byte lists -/

namespace Bytes

/-- Both end to end, if a word can hold the length. -/
def tryAppend (xs ys : Bytes) : Except Error Bytes :=
  if xs.length + ys.length ≤ wordMax then .ok (xs ++ ys)
  else .error (.lengthOverflow xs.length ys.length)

/-- Both end to end, where the caller vouches for the length. -/
def appended (xs ys : Bytes) : Outcome Bytes :=
  if xs.length + ys.length ≤ wordMax then .ok (xs ++ ys)
  else .error (.panic (.lengthOverflow xs.length ys.length))

/-- The two lengths at which the total first passes a word, from `n` bytes on. -/
def overflowing : Nat → List Bytes → Panic
  | n, [] => .lengthOverflow n 0
  | n, p :: ps =>
    if n + p.length ≤ wordMax then overflowing (n + p.length) ps else .lengthOverflow n p.length

/-- All end to end, if a word can hold the total. -/
def joined (parts : List Bytes) : Outcome Bytes :=
  if parts.flatten.length ≤ wordMax then .ok parts.flatten
  else .error (.panic (overflowing 0 parts))

/-- The bytes at positions `start ≤ i < stop`, if these are positions. -/
def slice (bs : Bytes) (start stop : Nat) : Except Error Bytes :=
  if stop < start ∨ bs.length < stop then .error (.outOfBounds start stop bs.length)
  else .ok (bs.window start stop)

def copied (bs : Bytes) : Outcome Bytes :=
  if bs.length ≤ arrayMax then .ok bs else .error (.panic (.arrayTooLarge bs.length))

def place (parts : List Bytes) (i : Nat) : Outcome Bytes :=
  match parts[i % parts.length]? with
  | some bs => .ok bs
  | none => .error (.panic .emptyCycle)

end Bytes

/-! ### Each operation -/

namespace ByteSeq

/-- A sound sequence of the given bytes. -/
def Refines (s : ByteSeq) (bs : Bytes) : Prop := s.Sound ∧ s.content = bs

namespace Refines

variable {s t : ByteSeq} {xs ys : Bytes}

theorem length_eq (h : s.Refines xs) : s.length = xs.length := by
  obtain ⟨hs, rfl⟩ := h
  exact hs.length_content.symm

theorem length_le (h : s.Refines xs) : xs.length ≤ wordMax := by
  rw [← h.length_eq]
  exact h.1.length_le

theorem eq_nil (h : s.Refines xs) (he : s.isEmpty = true) : xs = [] := by
  rw [isEmpty_iff, h.length_eq] at he
  exact List.length_eq_zero_iff.mp he

theorem empty : Refines .empty [] := ⟨trivial, rfl⟩

theorem array {bs : Bytes} (h : bs.length ≤ wordMax) : Refines (.array bs) bs := ⟨h, rfl⟩

theorem buffer {b : Buffer} (hb : b.Lawful) (hw : b.size ≤ wordMax) {start stop : Nat}
    (hle : start ≤ stop) (hstop : stop ≤ b.size) :
    Refines (.buffer ⟨b, start, stop - start⟩) (b.bytes.window start stop) := by
  have hrange : start + (stop - start) = stop := Nat.add_sub_of_le hle
  refine ⟨⟨hb, ?_, hw⟩, ?_⟩
  · rw [hrange]
    exact hstop
  · rw [content, hrange]

theorem slice (hs : s.Sound) {start stop : Nat} (hle : start ≤ stop) (hstop : stop ≤ s.length) :
    Refines (.slice s start (stop - start)) (s.content.window start stop) := by
  have hrange : start + (stop - start) = stop := Nat.add_sub_of_le hle
  refine ⟨⟨hs, ?_⟩, ?_⟩
  · rw [hrange]
    exact hstop
  · rw [content, hrange]

theorem ofBuffer {b : Buffer} (hb : b.Lawful) (hw : b.size ≤ wordMax) :
    Refines (.ofBuffer b) b.bytes := by
  have h := buffer hb hw (Nat.zero_le b.size) (Nat.le_refl _)
  rw [hb.holds.size_eq, Bytes.window_zero_length, Nat.sub_zero, ← hb.holds.size_eq] at h
  exact h

theorem encode {c : Charset} {cs : List Char} (h : (c.encode cs).length ≤ wordMax) :
    Refines (.encode c cs) (c.encode cs) := ⟨h, rfl⟩

theorem tryConcat (hs : s.Refines xs) (ht : t.Refines ys) :
    Agree Refines (ByteSeq.tryConcat s t) (Bytes.tryAppend xs ys) := by
  unfold ByteSeq.tryConcat Bytes.tryAppend
  by_cases hse : s.isEmpty = true
  · obtain rfl := hs.eq_nil hse
    have hl : ([] : Bytes).length + ys.length ≤ wordMax := by
      simpa using ht.length_le
    rw [if_pos hse, if_pos hl]
    exact .value ht
  rw [if_neg hse]
  by_cases hte : t.isEmpty = true
  · obtain rfl := ht.eq_nil hte
    have hl : xs.length + ([] : Bytes).length ≤ wordMax := by
      simpa using hs.length_le
    rw [if_pos hte, if_pos hl, List.append_nil]
    exact .value hs
  rw [if_neg hte, hs.length_eq, ht.length_eq]
  by_cases hl : xs.length + ys.length ≤ wordMax
  · rw [checkedAdd, if_pos hl, if_pos hl]
    refine .value ⟨⟨hs.1, ht.1, ?_, hl⟩, ?_⟩
    · rw [hs.length_eq, ht.length_eq]
    · show s.content ++ t.content = xs ++ ys
      rw [hs.2, ht.2]
  · rw [checkedAdd, if_neg hl, if_neg hl]
    exact .failure _

theorem append (hs : s.Refines xs) (ht : t.Refines ys) :
    Agree Refines (ByteSeq.append s t) (Bytes.appended xs ys) := by
  have h := tryConcat hs ht
  unfold Bytes.tryAppend at h
  unfold ByteSeq.append Bytes.appended
  by_cases hl : xs.length + ys.length ≤ wordMax
  · rw [if_pos hl] at h ⊢
    obtain ⟨r, hr, related⟩ := h.of_ok
    rw [hr]
    exact .value related
  · rw [if_neg hl] at h ⊢
    rw [h.of_error, hs.length_eq, ht.length_eq]
    exact .failure _

theorem subSeq (h : s.Refines xs) (start stop : Nat) :
    Agree Refines (ByteSeq.subSeq s start stop) (Bytes.slice xs start stop) := by
  obtain ⟨hs, rfl⟩ := h
  unfold ByteSeq.subSeq Bytes.slice
  rw [hs.length_content]
  by_cases hb : stop < start ∨ s.length < stop
  · rw [if_pos hb, if_pos hb]
    exact .failure _
  rw [if_neg hb, if_neg hb]
  rw [not_or] at hb
  obtain ⟨hle, hstop⟩ := hb
  by_cases he : start = stop
  · rw [if_pos he, Bytes.window_of_le _ (Nat.le_of_eq he.symm)]
    exact .value empty
  rw [if_neg he]
  by_cases hall : start = 0 ∧ stop = s.length
  · rw [if_pos hall, hall.1, hall.2, ← hs.length_content, Bytes.window_zero_length]
    exact .value ⟨hs, rfl⟩
  rw [if_neg hall]
  refine .value ?_
  have hle' : start ≤ stop := Nat.not_lt.mp hle
  have hstop' : stop ≤ s.length := Nat.not_lt.mp hstop
  have hpart : (s.content.window start stop).length ≤ wordMax := by
    have := hs.length_le
    rw [Bytes.length_window]
    omega
  -- ranges of a range keep the start of the outer one
  have hshift : ∀ offset, stop - start = offset + stop - (offset + start) := by
    intro offset
    rw [Nat.add_sub_add_left]
  cases s with
  | empty => exact ⟨trivial, by simp [content, Bytes.window]⟩
  | array bs => exact ⟨hpart, rfl⟩
  | text t => exact ⟨hpart, rfl⟩
  | buffer v =>
    obtain ⟨hb, hv, hw⟩ := hs
    have hv' : v.offset + stop ≤ v.offset + v.length := Nat.add_le_add_left hstop' _
    rw [content, Bytes.window_window _ hv', hshift v.offset]
    exact buffer hb hw (Nat.add_le_add_left hle' _) (Nat.le_trans hv' hv)
  | concat head tail n => exact slice hs hle' hstop'
  | slice inner offset n =>
    obtain ⟨hi, hin⟩ := hs
    have hn : offset + stop ≤ offset + n := Nat.add_le_add_left hstop' _
    rw [content, Bytes.window_window _ hn, hshift offset]
    exact slice hi (Nat.add_le_add_left hle' _) (Nat.le_trans hn hin)

theorem copy (h : s.Refines xs) : Agree Refines s.copy (Bytes.copied xs) := by
  unfold ByteSeq.copy gather Bytes.copied
  rw [h.length_eq, h.1.toBytes_eq, h.2]
  by_cases hl : xs.length ≤ arrayMax
  · rw [if_pos hl]
    exact .value (array h.length_le)
  · rw [if_neg hl]
    exact .failure _

/-- Joining on to what was joined fails exactly when the total passes a word. -/
theorem foldlM_append {ss : List ByteSeq} {parts : List Bytes}
    (hp : List.Forall₂ Refines ss parts) (hs : s.Refines xs) :
    Agree Refines (ss.foldlM ByteSeq.append s)
      (if xs.length + parts.flatten.length ≤ wordMax then .ok (xs ++ parts.flatten)
        else .error (.panic (Bytes.overflowing xs.length parts))) := by
  induction hp generalizing s xs with
  | nil =>
    have hl : xs.length + ([] : List Bytes).flatten.length ≤ wordMax := by
      simpa using hs.length_le
    rw [if_pos hl, List.flatten_nil, List.append_nil]
    exact .value hs
  | @cons t p ss parts ht hp ih =>
    have ha := append hs ht
    unfold Bytes.appended at ha
    rw [List.foldlM_cons, List.flatten_cons, List.length_append, ← Nat.add_assoc, Bytes.overflowing]
    by_cases hl : xs.length + p.length ≤ wordMax
    · rw [if_pos hl] at ha
      obtain ⟨r, hr, related⟩ := ha.of_ok
      rw [hr, if_pos hl, ← List.append_assoc, ← List.length_append]
      exact ih related
    · have hl' : ¬xs.length + p.length + parts.flatten.length ≤ wordMax := by omega
      rw [if_neg hl] at ha
      rw [ha.of_error, if_neg hl, if_neg hl']
      exact .failure _

theorem concatAll {ss : List ByteSeq} {parts : List Bytes} (hp : List.Forall₂ Refines ss parts) :
    Agree Refines (ByteSeq.concatAll ss) (Bytes.joined parts) := by
  have h := foldlM_append hp empty
  rw [List.length_nil, Nat.zero_add, List.nil_append] at h
  exact h

theorem leaf {parts : List Bytes} (hp : ∀ p ∈ parts, p.length ≤ wordMax) (i : Nat) :
    Agree Refines (ByteSeq.leaf parts i) (Bytes.place parts i) := by
  unfold ByteSeq.leaf Bytes.place
  cases h : parts[i % parts.length]? with
  | none => exact .failure _
  | some bs => exact .value (array (hp bs (List.mem_of_getElem? h)))

end Refines

/-! ### Expressions -/

namespace Expr

mutual

/-- The byte list that an expression builds; `env` holds those built before. -/
def plain (env : Array Bytes) : Expr → Outcome Bytes
  | empty => .ok []
  | array bs => .ok bs
  | buffer b => .ok b.bytes
  | text c cs => .ok (c.encode cs)
  | append a b => do Bytes.appended (← plain env a) (← plain env b)
  | tryConcat a b => do ofExcept (Bytes.tryAppend (← plain env a) (← plain env b))
  | concatAll parts => do Bytes.joined (← plainAll env parts)
  | sub e start stop => do ofExcept (Bytes.slice (← plain env e) start stop)
  | copy e => do Bytes.copied (← plain env e)
  | var i => .ok (env[i]?.getD [])
  | doubled times e => do
    rounds (fun _ bs => ofExcept (Bytes.tryAppend bs bs)) times 0 (← plain env e)
  | chained parts times fromLeft =>
    if fromLeft then rounds (fun i bs => do Bytes.appended bs (← Bytes.place parts i)) times 0 []
    else rounds (fun i bs => do
      Bytes.appended (← Bytes.place parts (times - 1 - i)) bs) times 0 []
  | rolled parts times e => do
    rounds (fun i bs => do
      let part ← Bytes.place parts i
      let joint ← ofExcept (Bytes.tryAppend bs part)
      ofExcept (Bytes.slice joint part.length joint.length)) times 0 (← plain env e)

def plainAll (env : Array Bytes) : List Expr → Outcome (List Bytes)
  | [] => .ok []
  | e :: es => do return (← plain env e) :: (← plainAll env es)

end

/-- The lengths of byte strings and buffers are words, and buffers keep their promises. -/
inductive Lawful : Expr → Prop
  | empty : Lawful .empty
  | array {bs : Bytes} (word : bs.length ≤ wordMax) : Lawful (.array bs)
  | buffer {b : Buffer} (lawful : b.Lawful) (word : b.size ≤ wordMax) : Lawful (.buffer b)
  | text {c : Charset} {cs : List Char} (word : (c.encode cs).length ≤ wordMax) :
    Lawful (.text c cs)
  | append {a b : Expr} (left : Lawful a) (right : Lawful b) : Lawful (.append a b)
  | tryConcat {a b : Expr} (left : Lawful a) (right : Lawful b) : Lawful (.tryConcat a b)
  | concatAll {parts : List Expr} (all : ∀ e ∈ parts, Lawful e) : Lawful (.concatAll parts)
  | sub {e : Expr} (of : Lawful e) (start stop : Nat) : Lawful (.sub e start stop)
  | copy {e : Expr} (of : Lawful e) : Lawful (.copy e)
  | var (i : Nat) : Lawful (.var i)
  | doubled {e : Expr} (times : Nat) (of : Lawful e) : Lawful (.doubled times e)
  | chained {parts : List Bytes} (words : ∀ p ∈ parts, p.length ≤ wordMax) (times : Nat)
    (fromLeft : Bool) : Lawful (.chained parts times fromLeft)
  | rolled {parts : List Bytes} {e : Expr} (words : ∀ p ∈ parts, p.length ≤ wordMax)
    (times : Nat) (of : Lawful e) : Lawful (.rolled parts times e)

section
variable {env : Array ByteSeq} {lists : Array Bytes}

theorem refines_getD (shared : List.Forall₂ Refines env.toList lists.toList) (i : Nat) :
    Refines (env[i]?.getD .empty) (lists[i]?.getD []) := by
  rw [← Array.getElem?_toList, ← Array.getElem?_toList]
  generalize env.toList = ss at shared
  generalize lists.toList = ls at shared
  induction shared generalizing i with
  | nil => exact .empty
  | cons h _ ih =>
    cases i with
    | zero => exact h
    | succ i => exact ih i

theorem evalAll_agrees {es : List Expr}
    (h : ∀ e ∈ es, Agree Refines (eval env e) (plain lists e)) :
    Agree (List.Forall₂ Refines) (evalAll env es) (plainAll lists es) := by
  induction es with
  | nil =>
    rw [evalAll, plainAll]
    exact .value .nil
  | cons e es ih =>
    rw [evalAll, plainAll]
    refine (h e List.mem_cons_self).bind fun s bs hs => ?_
    refine (ih fun e' he' => h e' (List.mem_cons_of_mem e he')).bind fun ss parts hp => ?_
    exact .value (.cons hs hp)

theorem rolled_agrees {parts : List Bytes} (hp : ∀ p ∈ parts, p.length ≤ wordMax) (times : Nat)
    {s : ByteSeq} {bs : Bytes} (h : s.Refines bs) :
    Agree Refines (ByteSeq.rolled parts times s)
      (rounds (fun i bs => do
        let part ← Bytes.place parts i
        let joint ← ofExcept (Bytes.tryAppend bs part)
        ofExcept (Bytes.slice joint part.length joint.length)) times 0 bs) := by
  refine Agree.rounds (fun i s bs hs => ?_) times 0 h
  refine (Refines.leaf hp i).bind fun part p hpart => ?_
  refine (hs.tryConcat hpart).ofExcept.bind fun joint bs' hj => ?_
  rw [hpart.length_eq, hj.length_eq]
  exact (hj.subSeq _ _).ofExcept

/-- A lawful expression fails as its plain model does, or builds what refines its list. -/
theorem eval_agrees (shared : List.Forall₂ Refines env.toList lists.toList) {e : Expr}
    (h : e.Lawful) :
    Agree Refines (eval env e) (plain lists e) := by
  induction h with
  | empty =>
    rw [eval, plain]
    exact .value .empty
  | array word =>
    rw [eval, plain]
    exact .value (.array word)
  | buffer lawful word =>
    rw [eval, plain]
    exact .value (.ofBuffer lawful word)
  | text word =>
    rw [eval, plain]
    exact .value (.encode word)
  | append left right ihl ihr =>
    rw [eval, plain]
    exact ihl.bind fun s xs hs => ihr.bind fun t ys ht => hs.append ht
  | tryConcat left right ihl ihr =>
    rw [eval, plain]
    exact ihl.bind fun s xs hs => ihr.bind fun t ys ht => (hs.tryConcat ht).ofExcept
  | concatAll all ih =>
    rw [eval, plain]
    exact (evalAll_agrees ih).bind fun ss parts hp => Refines.concatAll hp
  | sub of start stop ih =>
    rw [eval, plain]
    exact ih.bind fun s xs hs => (hs.subSeq start stop).ofExcept
  | copy of ih =>
    rw [eval, plain]
    exact ih.bind fun s xs hs => hs.copy
  | var i =>
    rw [eval, plain]
    exact .value (refines_getD shared i)
  | doubled times of ih =>
    rw [eval, plain]
    refine ih.bind fun s xs hs => ?_
    exact Agree.rounds (fun _ a b hab => (hab.tryConcat hab).ofExcept) times 0 hs
  | chained words times fromLeft =>
    rw [eval, plain, ByteSeq.chained]
    cases fromLeft with
    | true =>
      refine Agree.rounds (fun i a b hab => ?_) times 0 .empty
      exact (Refines.leaf words i).bind fun t ys ht => hab.append ht
    | false =>
      refine Agree.rounds (fun i a b hab => ?_) times 0 .empty
      exact (Refines.leaf words (times - 1 - i)).bind fun t ys ht => ht.append hab
  | rolled words times of ih =>
    rw [eval, plain]
    exact ih.bind fun s xs hs => rolled_agrees words times hs

end

/-! ### Programs -/

/-- Builds one after the other, each with those built before at hand. -/
def inOrder {α : Type} (build : Array α → Expr → Outcome α) (env : Array α) :
    List Expr → Outcome (Array α)
  | [] => .ok env
  | e :: es => do inOrder build (env.push (← build env e)) es

theorem inOrder_agrees {env : Array ByteSeq} {lists : Array Bytes}
    (shared : List.Forall₂ Refines env.toList lists.toList) {es : List Expr}
    (lawful : ∀ e ∈ es, e.Lawful) :
    Agree (fun seqs lists => List.Forall₂ Refines seqs.toList lists.toList)
      (inOrder eval env es) (inOrder plain lists es) := by
  induction es generalizing env lists with
  | nil => exact .value shared
  | cons e es ih =>
    rw [inOrder, inOrder]
    refine (eval_agrees shared (lawful e List.mem_cons_self)).bind fun s bs hs => ?_
    have hnext : List.Forall₂ Refines (env.push s).toList (lists.push bs).toList := by
      rw [Array.toList_push, Array.toList_push]
      exact List.rel_append shared (.cons hs .nil)
    exact ih hnext fun e' he' => lawful e' (List.mem_cons_of_mem e he')

end Expr

/-- All that a sequence shows of itself is a byte list, and its traversal stays inside. -/
structure Shows (s : ByteSeq) (bs : Bytes) : Prop where
  length_eq : s.length = bs.length
  toBytes_eq : s.toBytes = bs
  gather_eq : bs.length ≤ arrayMax → s.gather = .ok bs
  flatten_chunks : s.chunks.toList.flatten = bs
  chunk_ne_nil : ∀ c ∈ s.chunks.toList, c ≠ []
  inside : ∀ f, s.chunks.Opens f → f.Sound

theorem Refines.shows {s : ByteSeq} {bs : Bytes} (h : s.Refines bs) : s.Shows bs := by
  have hlen := h.length_eq
  obtain ⟨hs, rfl⟩ := h
  refine ⟨hlen, hs.toBytes_eq, ?_, hs.flatten_chunks, Chunks.ne_nil_of_mem_toList _,
    fun f ho => Chunks.sound_of_opens hs.chunks ho⟩
  intro hmax
  rw [gather, hlen, if_pos hmax, hs.toBytes_eq]

/-- A program of lawful expressions, each of which may use the results before it any number of
times, fails exactly where and as its plain model fails; otherwise each of its sequences shows the
byte list that the plain model builds in its place. -/
theorem program_agrees {es : List Expr} (lawful : ∀ e ∈ es, e.Lawful) :
    Agree (fun seqs lists => List.Forall₂ Shows seqs.toList lists.toList)
      (Expr.inOrder Expr.eval #[] es) (Expr.inOrder Expr.plain #[] es) := by
  have h := @Expr.inOrder_agrees #[] #[] .nil es lawful
  exact h.mono fun seqs lists hs => hs.imp fun s bs hr => hr.shows

/-- A wrapped ring, a view of a rope over it, and a view of that view joined to itself. -/
def Expr.viewsOfViews : List Expr :=
  [.buffer (.ring [1, 2, 3] [4, 5]), .sub (.append (.var 0) (.array [6, 7])) 1 6,
    .sub (.tryConcat (.var 1) (.var 1)) 3 8]

theorem program_agrees_on_viewsOfViews :
    ∃ seqs, Expr.inOrder Expr.eval #[] Expr.viewsOfViews = .ok seqs ∧
      List.Forall₂ Shows seqs.toList [[1, 2, 3, 4, 5], [2, 3, 4, 5, 6], [5, 6, 2, 3, 4]] := by
  have lawful : ∀ e ∈ Expr.viewsOfViews, e.Lawful := by
    intro e he
    simp only [Expr.viewsOfViews, List.mem_cons, List.not_mem_nil, or_false] at he
    rcases he with rfl | rfl | rfl
    · exact .buffer ⟨_, Buffer.holds_ring _ _⟩ (by decide)
    · exact .sub (.append (.var 0) (.array (by decide))) 1 6
    · exact .sub (.tryConcat (.var 1) (.var 1)) 3 8
  have hplain : Expr.inOrder Expr.plain #[] Expr.viewsOfViews =
      .ok #[[1, 2, 3, 4, 5], [2, 3, 4, 5, 6], [5, 6, 2, 3, 4]] := rfl
  have h := program_agrees lawful
  rw [hplain] at h
  exact h.of_ok

end ByteSeq
end StoreClient
