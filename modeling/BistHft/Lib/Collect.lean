import Mathlib.Data.List.Forall2

-- Loops that push what they read to a vector, skip some of what they read, and end where a read fails.

namespace Collect

variable {α β ε : Type*} {read : β → Except ε (Option α)} {acc : List α} {bs : List β}

def run (read : β → Except ε (Option α)) : List α → List β → List α × Except ε Unit
  | acc, []      => (acc, .ok ())
  | acc, b :: bs =>
    match read b with
    | .error e     => (acc, .error e)
    | .ok none     => run read acc bs
    | .ok (some a) => run read (acc ++ [a]) bs

-- What has been pushed before is neither looked at nor changed.
theorem run_eq : run read acc bs = (acc ++ (run read [] bs).1, (run read [] bs).2) := by
  induction bs generalizing acc
  case nil => simp [run]
  case cons b bs hi =>
    rw [run, run]
    split
    case h_1 => simp
    case h_2 => exact hi
    case h_3 a _ => rw [hi, @hi ([] ++ [a]), List.nil_append, List.append_assoc]

theorem run_fst : (run read acc bs).1 = acc ++ (run read [] bs).1 := by
  rw [run_eq]

theorem run_snd : (run read acc bs).2 = (run read [] bs).2 := by
  rw [run_eq]

theorem run_of_forall₂ {γ : Type*} {f : γ → Option α} {cs : List γ} (h : List.Forall₂ (fun b c => read b = .ok (f c)) bs cs) :
    run read acc bs = (acc ++ cs.filterMap f, .ok ()) := by
  induction h generalizing acc
  case nil => simp [run]
  case cons b c bs cs hb h hi =>
    rw [run, hb, List.filterMap_cons]
    cases f c
    case none   => exact hi
    case some a => exact hi.trans (by rw [List.append_assoc]; rfl)

end Collect
