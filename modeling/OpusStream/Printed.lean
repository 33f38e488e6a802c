import OpusStream.Fault

/-!
# Printing on the way to a result

A reading may print lines before it comes to its result. A reading that is refused has still printed
the lines up to there.
-/

namespace OpusStream

inductive Channel
  | log
  | info
  | warn
  | error
  deriving DecidableEq

structure Line where
  channel : Channel
  text : String
  deriving DecidableEq

/-- A result and the lines printed on the way to it. -/
@[ext] structure Printed (α : Type) where
  result : α
  lines : List Line

namespace Printed

variable {α β : Type}

instance : Monad Printed where
  pure a := ⟨a, []⟩
  bind x f :=
    let y := f x.result
    ⟨y.result, x.lines ++ y.lines⟩

@[simp] theorem result_pure (a : α) : (pure a : Printed α).result = a := rfl
@[simp] theorem lines_pure (a : α) : (pure a : Printed α).lines = [] := rfl
@[simp] theorem result_bind (x : Printed α) (f : α → Printed β) :
    (x >>= f).result = (f x.result).result := rfl
@[simp] theorem lines_bind (x : Printed α) (f : α → Printed β) :
    (x >>= f).lines = x.lines ++ (f x.result).lines := rfl
@[simp] theorem result_map (f : α → β) (x : Printed α) : (f <$> x).result = f x.result := rfl
@[simp] theorem lines_map (f : α → β) (x : Printed α) : (f <$> x).lines = x.lines :=
  List.append_nil _

instance : LawfulMonad Printed := LawfulMonad.mk' Printed
  (fun x => Printed.ext rfl (lines_map id x))
  (fun _ _ => rfl)
  (fun x f g => Printed.ext rfl (List.append_assoc x.lines _ _))

@[simp] theorem result_run_bind (x : ExceptT Fault Printed α) (f : α → ExceptT Fault Printed β) :
    (x >>= f).run.result = x.run.result >>= fun a => (f a).run.result := by
  rw [ExceptT.run_bind, result_bind]
  cases x.run.result <;> rfl

@[simp] theorem lines_run_bind (x : ExceptT Fault Printed α) (f : α → ExceptT Fault Printed β) :
    (x >>= f).run.lines = x.run.lines ++
      match x.run.result with
      | .ok a => (f a).run.lines
      | .error _ => [] := by
  rw [ExceptT.run_bind, lines_bind]
  cases x.run.result <;> rfl

@[simp] theorem run_liftExcept (x : Except Fault α) :
    (liftM x : ExceptT Fault Printed α).run = pure x := rfl

end Printed
end OpusStream
