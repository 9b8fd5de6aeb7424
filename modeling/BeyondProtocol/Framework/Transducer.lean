import Mathlib.Data.List.Basic

/-!
# Machines with one output for each input

A transition function with an output, run over a list of inputs: the state
after it and the list of outputs. The output at a position depends on the
inputs before it only, so the outputs of a part of the input are a part of the
outputs.
-/

namespace Framework.Transducer

variable {S A B : Type*} (step : S → A → S × B)

def after (s : S) (xs : List A) : S := xs.foldl (fun s a => (step s a).1) s

def outputs : S → List A → List B
  | _, [] => []
  | s, a :: xs => (step s a).2 :: outputs (step s a).1 xs

@[simp] theorem after_nil (s : S) : after step s [] = s := rfl

@[simp] theorem after_cons (s : S) (a : A) (xs : List A) :
    after step s (a :: xs) = after step (step s a).1 xs := rfl

@[simp] theorem outputs_nil (s : S) : outputs step s [] = [] := rfl

@[simp] theorem outputs_cons (s : S) (a : A) (xs : List A) :
    outputs step s (a :: xs) = (step s a).2 :: outputs step (step s a).1 xs := rfl

theorem after_append (s : S) (xs ys : List A) :
    after step s (xs ++ ys) = after step (after step s xs) ys :=
  List.foldl_append

theorem outputs_append (s : S) (xs ys : List A) :
    outputs step s (xs ++ ys) = outputs step s xs ++ outputs step (after step s xs) ys := by
  induction xs generalizing s with
  | nil => rfl
  | cons a xs ih =>
      rw [List.cons_append, outputs_cons, ih, outputs_cons, after_cons, List.cons_append]

@[simp] theorem length_outputs (s : S) (xs : List A) :
    (outputs step s xs).length = xs.length := by
  induction xs generalizing s with
  | nil => rfl
  | cons a xs ih => rw [outputs_cons, List.length_cons, ih, List.length_cons]

/-- The outputs of the middle part of an input. -/
theorem outputs_middle (s : S) (xs ys zs : List A) :
    outputs step (after step s xs) ys =
      ((outputs step s (xs ++ ys ++ zs)).drop xs.length).take ys.length := by
  rw [List.append_assoc, outputs_append, List.drop_left' (length_outputs step s xs),
    outputs_append, List.take_left' (length_outputs step _ ys)]

end Framework.Transducer
