import ContributorGateway.Foundation.Requests
import Mathlib.Data.List.Forall2

/-!
# Two runs side by side

Two programs are related when they send the same requests as long as the replies that
they get are related, and end in related results. Their runs against related replies
then have related traces.
-/

namespace ContributorGateway

variable {Req Resp α β γ δ : Type}

namespace Program

/-- The programs send the same requests while their replies are related, and end in
related results. -/
inductive Related (R : Resp → Resp → Prop) (S : α → β → Prop) :
    Program Req Resp α → Program Req Resp β → Prop
  | done {a : α} {b : β} (h : S a b) : Related R S (.done a) (.done b)
  | send {r : Req} {k : Resp → Program Req Resp α} {k' : Resp → Program Req Resp β}
      (h : ∀ x x', R x x' → Related R S (k x) (k' x')) : Related R S (.send r k) (.send r k')

variable {R R' : Resp → Resp → Prop} {S S' : α → β → Prop} {T : γ → δ → Prop}
  {p : Program Req Resp α} {p' : Program Req Resp β}

/-- Fewer replies are related, more results are. -/
theorem Related.mono (h : Related R S p p') (hR : ∀ x x', R' x x' → R x x')
    (hS : ∀ a b, S a b → S' a b) : Related R' S' p p' := by
  induction h with
  | done h => exact .done (hS _ _ h)
  | send _ ih => exact .send fun x x' hx => ih x x' (hR x x' hx)

/-- The rule of sequencing. -/
theorem Related.bind {f : α → Program Req Resp γ} {f' : β → Program Req Resp δ}
    (h : Related R S p p') (hf : ∀ a b, S a b → Related R T (f a) (f' b)) :
    Related R T (p >>= f) (p' >>= f') := by
  induction h with
  | done h => exact hf _ _ h
  | send _ ih => exact .send ih

/-- Related runs ask the same, get related replies and end in related results. -/
theorem Related.run (h : Related R S p p') {replies replies' : ℕ → Resp}
    (hreplies : ∀ n, R (replies n) (replies' n)) :
    List.Forall₂ (fun e e' => e.1 = e'.1 ∧ R e.2 e'.2) (p.run replies).1 (p'.run replies').1 ∧
      S (p.run replies).2 (p'.run replies').2 := by
  induction h generalizing replies replies' with
  | done h => exact ⟨.nil, h⟩
  | @send r k k' _ ih =>
    obtain ⟨htrace, hresult⟩ := ih _ _ (hreplies 0) fun n => hreplies (n + 1)
    exact ⟨.cons ⟨rfl, hreplies 0⟩ htrace, hresult⟩

/-- Given the same replies the programs end in related results, whatever they ask. -/
inductive Lockstep (S : α → β → Prop) : Program Req Resp α → Program Req Resp β → Prop
  | done {a : α} {b : β} (h : S a b) : Lockstep S (.done a) (.done b)
  | send {r r' : Req} {k : Resp → Program Req Resp α} {k' : Resp → Program Req Resp β}
      (h : ∀ x, Lockstep S (k x) (k' x)) : Lockstep S (.send r k) (.send r' k')

/-- A program is in lockstep with itself. -/
theorem Lockstep.refl {S : α → α → Prop} (hS : ∀ a, S a a) (p : Program Req Resp α) :
    Lockstep S p p := by
  induction p with
  | done a => exact .done (hS a)
  | send r k ih => exact .send ih

/-- The rule of sequencing for programs in lockstep. -/
theorem Lockstep.bind {f : α → Program Req Resp γ} {f' : β → Program Req Resp δ}
    (h : Lockstep S p p') (hf : ∀ a b, S a b → Lockstep T (f a) (f' b)) :
    Lockstep T (p >>= f) (p' >>= f') := by
  induction h with
  | done h => exact hf _ _ h
  | send _ ih => exact .send ih

/-- Runs in lockstep against the same replies end in related results. -/
theorem Lockstep.run (h : Lockstep S p p') (replies : ℕ → Resp) :
    S (p.run replies).2 (p'.run replies).2 := by
  induction h generalizing replies with
  | done h => exact h
  | send _ ih => exact ih (replies 0) fun n => replies (n + 1)

end Program

namespace Process

variable {ε L : Type} {R : Resp → Resp → Prop} {S : α → β → Prop} {T : γ → δ → Prop}

/-- Both fail with the same exception, or both return related values. -/
def Results (S : α → β → Prop) : Except ε α → Except ε β → Prop
  | .ok a, .ok b => S a b
  | .error e, .error e' => e = e'
  | _, _ => False

/-- The results are related, and the local variables are the same. -/
def Outcomes (S : α → β → Prop) (r : Except ε α × L) (r' : Except ε β × L) : Prop :=
  r.2 = r'.2 ∧ Results S r.1 r'.1

/-- Started with the same local variables, the computations are related. -/
def Related (R : Resp → Resp → Prop) (S : α → β → Prop) (m : Process Req Resp ε L α)
    (m' : Process Req Resp ε L β) : Prop :=
  ∀ l, Program.Related R (Outcomes S) (m l) (m' l)

variable {m : Process Req Resp ε L α} {m' : Process Req Resp ε L β}

/-- The rule of sequencing. -/
theorem Related.bind {f : α → Process Req Resp ε L γ} {f' : β → Process Req Resp ε L δ}
    (h : Related R S m m') (hf : ∀ a b, S a b → Related R T (f a) (f' b)) :
    Related R T (m >>= f) (m' >>= f') := by
  intro l
  refine Program.Related.bind (h l) ?_
  rintro ⟨_ | a, l₁⟩ ⟨_ | b, l₂⟩ ⟨rfl, hvalue⟩
  · exact .done ⟨rfl, hvalue⟩
  · cases hvalue
  · cases hvalue
  · exact hf a b hvalue l₁

/-- Related values are returned. -/
theorem Related.pure {a : α} {b : β} (h : S a b) :
    Related R S (Pure.pure a : Process Req Resp ε L α) (Pure.pure b) :=
  fun _ => .done ⟨rfl, h⟩

/-- The same exception is raised. -/
theorem Related.raise (e : ε) :
    Related R S (Process.raise e : Process Req Resp ε L α) (Process.raise e) :=
  fun _ => .done ⟨rfl, rfl⟩

/-- The rule of checks. -/
theorem Related.lift {x : Except ε α} {y : Except ε β} (h : Results S x y) :
    Related R S (Process.lift x : Process Req Resp ε L α) (Process.lift y) :=
  fun _ => .done ⟨rfl, h⟩

/-- Equal results are related. -/
theorem Results.refl {S : α → α → Prop} (hS : ∀ a, S a a) (x : Except ε α) : Results S x x := by
  cases x with
  | error e => exact rfl
  | ok a => exact hS a

/-- Results related by equality are equal. -/
theorem Results.eq {x y : Except ε α} (h : Results Eq x y) : x = y := by
  cases x with
  | error e =>
    cases y with
    | error e' => exact congrArg Except.error h
    | ok b => cases h
  | ok a =>
    cases y with
    | error e' => cases h
    | ok b => exact congrArg Except.ok h

/-- The rule of sequencing for results. -/
theorem Results.bind {S : α → β → Prop} {T : γ → δ → Prop} {x : Except ε α} {y : Except ε β}
    {f : α → Except ε γ} {g : β → Except ε δ} (h : Results S x y)
    (hf : ∀ a b, S a b → Results T (f a) (g b)) : Results T (x >>= f) (y >>= g) := by
  cases x with
  | error e =>
    cases y with
    | error e' => exact h
    | ok b => cases h
  | ok a =>
    cases y with
    | error e' => cases h
    | ok b => exact hf a b h

/-- Checks with equal results are related. -/
theorem Related.lift_eq {x y : Except ε α} (h : x = y) :
    Related R Eq (Process.lift x : Process Req Resp ε L α) (Process.lift y) :=
  h ▸ Related.lift (Results.refl (fun _ => rfl) x)

/-- The same assignment is made in both. -/
theorem Related.assign (f : L → L) :
    Related R Eq (Process.assign f : Process Req Resp ε L Unit) (Process.assign f) :=
  fun _ => .done ⟨rfl, rfl⟩

/-- The same request is sent by both. -/
theorem Related.ask (r : Req) :
    Related R R (Process.ask r : Process Req Resp ε L Resp) (Process.ask r) :=
  fun _ => .send fun _ _ hx => .done ⟨rfl, hx⟩

/-- Started with the same local variables, the computations are in lockstep. -/
def Lockstep (S : α → β → Prop) (m : Process Req Resp ε L α) (m' : Process Req Resp ε L β) :
    Prop :=
  ∀ l, Program.Lockstep (Outcomes S) (m l) (m' l)

/-- A computation is in lockstep with itself. -/
theorem Lockstep.refl (m : Process Req Resp ε L α) : Lockstep Eq m m :=
  fun l => .refl (fun r => ⟨rfl, Results.refl (fun _ => rfl) r.1⟩) (m l)

/-- The rule of sequencing for computations in lockstep. -/
theorem Lockstep.bind {f : α → Process Req Resp ε L γ} {f' : β → Process Req Resp ε L δ}
    (h : Lockstep S m m') (hf : ∀ a b, S a b → Lockstep T (f a) (f' b)) :
    Lockstep T (m >>= f) (m' >>= f') := by
  intro l
  refine Program.Lockstep.bind (h l) ?_
  rintro ⟨_ | a, l₁⟩ ⟨_ | b, l₂⟩ ⟨rfl, hvalue⟩
  · exact .done ⟨rfl, hvalue⟩
  · cases hvalue
  · cases hvalue
  · exact hf a b hvalue l₁

/-- After the same computation, it is enough that what follows is in lockstep. -/
theorem Lockstep.bind_same {f : α → Process Req Resp ε L γ} {f' : α → Process Req Resp ε L δ}
    (m : Process Req Resp ε L α) (hf : ∀ a, Lockstep T (f a) (f' a)) :
    Lockstep T (m >>= f) (m >>= f') := by
  refine (Lockstep.refl m).bind ?_
  rintro a _ rfl
  exact hf a

/-- The rule of checks for computations in lockstep. -/
theorem Lockstep.lift {x : Except ε α} {y : Except ε β} (h : Results S x y) :
    Lockstep S (Process.lift x : Process Req Resp ε L α) (Process.lift y) :=
  fun _ => .done ⟨rfl, h⟩

/-- Different requests are answered by the same reply. -/
theorem Lockstep.ask (r r' : Req) :
    Lockstep Eq (Process.ask r : Process Req Resp ε L Resp) (Process.ask r') :=
  fun _ => .send fun _ => .done ⟨rfl, rfl⟩

end Process

end ContributorGateway
