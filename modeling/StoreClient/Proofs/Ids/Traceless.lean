import StoreClient.Proofs.Ids.Runs

/-! # Polls that leave no trace

A poll without an id forgets and remembers nothing, so a run does not show whether it took place:
leaving out any such polls changes neither the answers of the others nor the generator that the run
leaves behind (`IdGenerator.omitted_unnoticed`).  An overflow under a lock is the exception, since
the lock is poisoned by it. -/

namespace StoreClient
namespace IdGenerator

/-- `kept` are the polls of a run without some that issued no id. -/
inductive Omits : List (Reading × Outcome Poll) → List (Reading × Outcome Poll) → Prop
  | done : Omits [] []
  | keep {p : Reading × Outcome Poll} {polls kept : List (Reading × Outcome Poll)}
    (rest : Omits polls kept) : Omits (p :: polls) (p :: kept)
  | drop {p : Reading × Outcome Poll} {polls kept : List (Reading × Outcome Poll)}
    (noId : readyId? p.2 = none) (rest : Omits polls kept) : Omits (p :: polls) kept

variable {g : IdGenerator} {r : Reading} {rs : List Reading}
  {kept : List (Reading × Outcome Poll)}

/-- Leaving out polls that issued no id changes neither the other answers nor what the generator
remembers in the end, unless one of the polls overflowed under a lock. -/
theorem omitted_unnoticed (hwords : g.sharing = .locked → overflow ∉ (g.pollAll rs).1)
    (h : Omits (g.transcript rs) kept) :
    g.pollAll (kept.map Prod.fst) = (kept.map Prod.snd, (g.pollAll rs).2) := by
  induction rs generalizing g kept with
  | nil =>
    cases h
    rfl
  | cons r rs ih =>
    rw [pollAll_cons] at hwords
    have hrest : (g.poll r).2.sharing = .locked → overflow ∉ ((g.poll r).2.pollAll rs).1 := by
      rw [sharing_poll]
      exact fun hlocked => mt (List.mem_cons_of_mem _) (hwords hlocked)
    rw [transcript_cons] at h
    cases h with
    | keep rest =>
      rw [List.map_cons, pollAll_cons, ih hrest rest]
      rfl
    | drop noId rest =>
      have hself : (g.poll r).2 = g :=
        poll_eq_self noId fun hlocked he => hwords hlocked (he ▸ List.mem_cons_self)
      have hkept := ih hrest rest
      rw [pollAll_cons, hself]
      rw [hself] at hkept
      exact hkept

/-- A worker that has to wait, a clock before the epoch, a worker that does not fit its field and a
clock that falls back too far, between three ids. -/
def faltering : List Reading :=
  [⟨1735689600007, 1⟩, ⟨1735689600007, 3⟩, ⟨1735689599999, 1⟩, ⟨1735689600030, 5000⟩,
    ⟨1735689600030, 1⟩, ⟨1735689600010, 1⟩, ⟨1735689600030, 1⟩]

/-- Of the polls between the ids, all but the last are left out. -/
theorem omitted_unnoticed_of_faltering :
    overflow ∉ ((fresh .locked { layout := .layout64 }).pollAll faltering).1 ∧
      (fresh .locked { layout := .layout64 }).pollAll
          [⟨1735689600007, 1⟩, ⟨1735689600030, 1⟩, ⟨1735689600010, 1⟩, ⟨1735689600030, 1⟩] =
        ([.ok (.ready ⟨29364224⟩), .ok (.ready ⟨125833216⟩),
            .error (.error (.clockRegression (.ofMillis 20))), .ok (.ready ⟨125833217⟩)],
          ((fresh .locked { layout := .layout64 }).pollAll faltering).2) := by
  have hwords : overflow ∉ ((fresh .locked { layout := .layout64 }).pollAll faltering).1 := by
    decide +kernel
  have htranscript : (fresh .locked { layout := .layout64 }).transcript faltering =
      [(⟨1735689600007, 1⟩, .ok (.ready ⟨29364224⟩)),
        (⟨1735689600007, 3⟩, .ok (.pending (.ofMillis 1))),
        (⟨1735689599999, 1⟩, .error (.error (.domain .timestamp (-1) 2199023255551))),
        (⟨1735689600030, 5000⟩, .error (.error (.domain .workerId 5000 1023))),
        (⟨1735689600030, 1⟩, .ok (.ready ⟨125833216⟩)),
        (⟨1735689600010, 1⟩, .error (.error (.clockRegression (.ofMillis 20)))),
        (⟨1735689600030, 1⟩, .ok (.ready ⟨125833217⟩))] := by
    decide +kernel
  have homits : Omits ((fresh .locked { layout := .layout64 }).transcript faltering)
      [(⟨1735689600007, 1⟩, .ok (.ready ⟨29364224⟩)),
        (⟨1735689600030, 1⟩, .ok (.ready ⟨125833216⟩)),
        (⟨1735689600010, 1⟩, .error (.error (.clockRegression (.ofMillis 20)))),
        (⟨1735689600030, 1⟩, .ok (.ready ⟨125833217⟩))] := by
    rw [htranscript]
    exact .keep <| .drop rfl <| .drop rfl <| .drop rfl <| .keep <| .keep <| .keep .done
  exact ⟨hwords, omitted_unnoticed (fun _ => hwords) homits⟩

end IdGenerator
end StoreClient
