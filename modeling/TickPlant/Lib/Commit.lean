/-
# Programs that throw

When a program throws, what it has done to the state stays.  A `commit` is a part that first
reads, which does not touch the state, and then changes the state by what it has read, or leaves
it if there is nothing to do.  It throws before it changes anything, or not at all.

A program that is written out as readings and changes is brought into this form by
`commit_bind` and `commits_bind`.  A sequence of commits that throws has done exactly those before
the one that threw (`exec_commits`).
-/
import TickPlant.Lib.Reading

namespace TickPlant.Lib

variable {σ α β γ : Type}

/-- A program over the state `σ` that may throw. -/
abbrev Program (σ α : Type) := ExceptT Stop (StateM σ) α

/-- The result of a program and the state it leaves. -/
def exec (p : Program σ α) (s : σ) : Except Stop α × σ := StateT.run (ExceptT.run p) s

/-- A change of the state by what has been read. -/
def commit (read : Except Stop (Option β)) (apply : β → σ → σ) : Program σ Unit := do
  match ← read with
  | none => return
  | some b => modify (apply b)

lemma exec_commit_none {read : Except Stop (Option β)} (h : read = .ok none) (apply : β → σ → σ)
    (s : σ) : exec (commit read apply) s = (.ok (), s) := by
  rw [h]
  rfl

lemma exec_commit_some {read : Except Stop (Option β)} {b : β} (h : read = .ok (some b))
    (apply : β → σ → σ) (s : σ) : exec (commit read apply) s = (.ok (), apply b s) := by
  rw [h]
  rfl

lemma exec_commit_error {read : Except Stop (Option β)} {e : Stop} (h : read = .error e)
    (apply : β → σ → σ) (s : σ) : exec (commit read apply) s = (.error e, s) := by
  rw [h]
  rfl

lemma commit_bind (r : Except Stop γ) (f : γ → Except Stop (Option β)) (apply : β → σ → σ) :
    commit (r >>= f) apply = (do let c ← r; commit (f c) apply) := by
  cases r <;> rfl

lemma commit_ite (c : Prop) [Decidable c] (r r' : Except Stop (Option β)) (apply : β → σ → σ) :
    commit (if c then r else r') apply = if c then commit r apply else commit r' apply :=
  apply_ite (fun r => commit r apply) c r r'

lemma exec_bind (p : Program σ α) (f : α → Program σ β) (s : σ) :
    exec (p >>= f) s =
      match exec p s with
      | (.ok a, t) => exec (f a) t
      | (.error e, t) => (.error e, t) := by
  simp only [exec, ExceptT.run, StateT.run, bind, ExceptT.bind, ExceptT.mk, StateT.bind,
    ExceptT.bindCont]
  cases p s with
  | mk r t => cases r <;> rfl

/-! ## Sequences of commits -/

variable {read : α → Except Stop (Option β)} {apply : β → σ → σ}

/-- One commit, and then the rest. -/
lemma exec_forM_cons {x : α} {xs : List α} {b : Option β} (h : read x = .ok b) (s : σ) :
    exec ((x :: xs).forM fun x => commit (read x) apply) s =
      exec (xs.forM fun x => commit (read x) apply) (b.elim s fun b => apply b s) := by
  have hcons : (x :: xs).forM (fun x => commit (read x) apply) =
      commit (read x) apply >>= fun _ => xs.forM fun x => commit (read x) apply := rfl
  rw [hcons, exec_bind]
  cases b with
  | none => rw [exec_commit_none h]; rfl
  | some b => rw [exec_commit_some h]; rfl

/-- Commits that can all be read are all done. -/
lemma exec_forM_ok {xs : List α} {bs : List (Option β)}
    (h : List.Forall₂ (fun x b => read x = .ok b) xs bs) (s : σ) :
    exec (xs.forM fun x => commit (read x) apply) s =
      (.ok (), bs.reduceOption.foldl (fun s b => apply b s) s) := by
  induction h generalizing s with
  | nil => rfl
  | @cons x b xs bs hx _ ih =>
    rw [exec_forM_cons hx, ih]
    cases b with
    | none => rw [List.reduceOption_cons_of_none]; rfl
    | some b => rw [List.reduceOption_cons_of_some]; rfl

/-- If one of them throws, those before it are done and nothing else. -/
lemma exec_forM_error {pre post : List α} {bs : List (Option β)} {x : α} {e : Stop}
    (hpre : List.Forall₂ (fun x b => read x = .ok b) pre bs) (hx : read x = .error e) (s : σ) :
    exec ((pre ++ x :: post).forM fun x => commit (read x) apply) s =
      (.error e, bs.reduceOption.foldl (fun s b => apply b s) s) := by
  induction hpre generalizing s with
  | nil =>
    have hcons : (x :: post).forM (fun x => commit (read x) apply) =
        commit (read x) apply >>= fun _ => post.forM fun x => commit (read x) apply := rfl
    rw [List.nil_append, hcons, exec_bind, exec_commit_error hx]
    rfl
  | @cons y b pre bs hy _ ih =>
    rw [List.cons_append, exec_forM_cons hy, ih]
    cases b with
    | none => rw [List.reduceOption_cons_of_none]; rfl
    | some b => rw [List.reduceOption_cons_of_some]; rfl

/-- The readings of a list all succeed, or there is a first one that does not. -/
lemma forall_ok_or_first_error (read : α → Except Stop β) (xs : List α) :
    (∃ bs, List.Forall₂ (fun x b => read x = .ok b) xs bs) ∨
      ∃ pre x post bs e, xs = pre ++ x :: post ∧
        List.Forall₂ (fun x b => read x = .ok b) pre bs ∧ read x = .error e := by
  induction xs with
  | nil => exact Or.inl ⟨[], List.Forall₂.nil⟩
  | cons x xs ih =>
    cases hx : read x with
    | error e => exact Or.inr ⟨[], x, xs, [], e, rfl, List.Forall₂.nil, hx⟩
    | ok b =>
      obtain ⟨bs, h⟩ | ⟨pre, y, post, bs, e, rfl, hpre, hy⟩ := ih
      · exact Or.inl ⟨b :: bs, List.Forall₂.cons hx h⟩
      · exact Or.inr ⟨x :: pre, y, post, b :: bs, e, rfl, List.Forall₂.cons hx hpre, hy⟩

/-- A list is read, and then each of its elements is a commit. -/
def commits (parts : Except Stop (List α)) (read : α → Except Stop (Option β))
    (apply : β → σ → σ) : Program σ Unit := do
  let xs ← parts
  xs.forM fun x => commit (read x) apply

lemma commits_bind (r : Except Stop γ) (f : γ → Except Stop (List α)) :
    commits (r >>= f) read apply = (do let c ← r; commits (f c) read apply) := by
  cases r <;> rfl

lemma commits_ite (c : Prop) [Decidable c] (r r' : Except Stop (List α)) :
    commits (if c then r else r') read apply =
      if c then commits r read apply else commits r' read apply :=
  apply_ite (fun r => commits r read apply) c r r'

/-- What a sequence of commits does. -/
theorem exec_commits (parts : Except Stop (List α)) (read : α → Except Stop (Option β))
    (apply : β → σ → σ) (s : σ) :
    (∃ e, parts = .error e ∧ exec (commits parts read apply) s = (.error e, s)) ∨
    (∃ xs bs, parts = .ok xs ∧ List.Forall₂ (fun x b => read x = .ok b) xs bs ∧
      exec (commits parts read apply) s =
        (.ok (), bs.reduceOption.foldl (fun s b => apply b s) s)) ∨
    ∃ pre x post bs e, parts = .ok (pre ++ x :: post) ∧
      List.Forall₂ (fun x b => read x = .ok b) pre bs ∧ read x = .error e ∧
      exec (commits parts read apply) s =
        (.error e, bs.reduceOption.foldl (fun s b => apply b s) s) := by
  cases parts with
  | error e => exact Or.inl ⟨e, rfl, rfl⟩
  | ok xs =>
    have hexec : exec (commits (.ok xs) read apply) s =
        exec (xs.forM fun x => commit (read x) apply) s := rfl
    rw [hexec]
    obtain ⟨bs, h⟩ | ⟨pre, x, post, bs, e, rfl, hpre, hx⟩ := forall_ok_or_first_error read xs
    · exact Or.inr (Or.inl ⟨xs, bs, rfl, h, exec_forM_ok h s⟩)
    · exact Or.inr (Or.inr ⟨pre, x, post, bs, e, rfl, hpre, hx, exec_forM_error hpre hx s⟩)

end TickPlant.Lib
