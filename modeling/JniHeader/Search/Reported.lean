import JniHeader.Search.Failure

/-!
# Results with diagnostics

A result together with the lines reported on the way to it. Lines come in the
order of the steps that report them, and those before a failure stay.
-/
namespace JniHeader

structure Reported (α : Type) where
  lines : List Text
  result : Except Failure α

namespace Reported

variable {α β : Type}

def pure (x : α) : Reported α := ⟨[], .ok x⟩

def fail (f : Failure) : Reported α := ⟨[], .error f⟩

def bind (r : Reported α) (next : α → Reported β) : Reported β :=
  match r.result with
  | .error f => ⟨r.lines, .error f⟩
  | .ok x => ⟨r.lines ++ (next x).lines, (next x).result⟩

instance : Monad Reported where
  pure := Reported.pure
  bind := Reported.bind

/-- Report lines before a result. -/
def after (lines : List Text) (r : Reported α) : Reported α := ⟨lines ++ r.lines, r.result⟩

/-- The results for all members of a list, in order. -/
def forEach (step : α → Reported β) : List α → Reported (List β)
  | [] => pure []
  | x :: xs => (step x).bind fun y => (forEach step xs).bind fun ys => pure (y :: ys)

end Reported

end JniHeader
