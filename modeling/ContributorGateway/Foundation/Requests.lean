import Mathlib.Data.Nat.Notation
import Mathlib.Logic.Function.Basic
import Mathlib.Logic.Relation

/-!
# Programs that send requests

A program sends requests one after another and continues from every reply. It can be
run against a list of replies, executed alone in a world that answers requests, or
interleaved with other programs in a world that they share. One weakest precondition
serves all three: it lets the world evolve between two requests and asks every request
to keep the world's invariant.
-/

namespace ContributorGateway

/-- A computation that sends requests and continues from the replies. -/
inductive Program (Req Resp α : Type) where
  | done (a : α)
  | send (r : Req) (k : Resp → Program Req Resp α)

variable {Req Resp α β σ ι : Type}

namespace Program

/-- Run one program after another. -/
def bind : Program Req Resp α → (α → Program Req Resp β) → Program Req Resp β
  | done a, f => f a
  | send r k, f => send r fun x => (k x).bind f

instance : Monad (Program Req Resp) where
  pure := done
  bind := bind

@[simp] theorem pure_eq (a : α) : (pure a : Program Req Resp α) = done a := rfl

@[simp] theorem done_bind (a : α) (f : α → Program Req Resp β) : done a >>= f = f a := rfl

@[simp] theorem send_bind (r : Req) (k : Resp → Program Req Resp α)
    (f : α → Program Req Resp β) : send r k >>= f = send r fun x => k x >>= f := rfl

/-- Run a program against replies: the requests with their replies, and the result. -/
def run : Program Req Resp α → (ℕ → Resp) → List (Req × Resp) × α
  | done a, _ => ([], a)
  | send r k, replies =>
      let rest := (k (replies 0)).run fun n => replies (n + 1)
      ((r, replies 0) :: rest.1, rest.2)

/-- The run of a program whose result is changed at the end. -/
theorem run_bind_done (p : Program Req Resp α) (f : α → β) (replies : ℕ → Resp) :
    (p >>= fun a => done (f a)).run replies = ((p.run replies).1, f (p.run replies).2) := by
  induction p generalizing replies with
  | done a => rfl
  | send r k ih =>
    have hrest := ih (replies 0) fun n => replies (n + 1)
    rw [send_bind, run, run, hrest]

end Program

/-- How requests are answered. A request by one of the parties changes the state and is
given a reply; between requests the state may evolve. -/
structure World (Req Resp σ ι : Type) where
  answers : ι → σ → Req → σ → Resp → Prop
  evolves : σ → σ → Prop
  good : σ → Prop
  evolves_refl : ∀ s, evolves s s
  evolves_trans : ∀ {s₁ s₂ s₃}, evolves s₁ s₂ → evolves s₂ s₃ → evolves s₁ s₃

namespace World

/-- The property holds however the world evolves from here. -/
def Later (W : World Req Resp σ ι) (P : σ → Prop) (s : σ) : Prop :=
  ∀ s', W.evolves s s' → W.good s' → P s'

/-- What holds later holds later than later. -/
theorem Later.evolve {W : World Req Resp σ ι} {P : σ → Prop} {s s' : σ} (h : W.Later P s)
    (hevolves : W.evolves s s') : W.Later P s' :=
  fun s'' hs'' hgood => h s'' (W.evolves_trans hevolves hs'') hgood

/-- The property survives the evolution of the world. -/
def Stable (W : World Req Resp σ ι) (P : σ → Prop) : Prop :=
  ∀ s s', P s → W.evolves s s' → W.good s' → P s'

/-- What is stable holds later. -/
theorem Stable.later {W : World Req Resp σ ι} {P : σ → Prop} {s : σ} (hstable : W.Stable P)
    (h : P s) : W.Later P s :=
  fun s' hs' hgood => hstable s s' h hs' hgood

/-- The world that only remembers what was asked and replied. -/
def history : World Req Resp (List (Req × Resp)) Unit where
  answers _ s r s' x := s' = s ++ [(r, x)]
  evolves s s' := s = s'
  good _ := True
  evolves_refl _ := rfl
  evolves_trans := Eq.trans

@[simp] theorem later_history {P : List (Req × Resp) → Prop} {s : List (Req × Resp)} :
    (history : World Req Resp _ _).Later P s ↔ P s := by
  constructor
  · intro h
    exact h s rfl trivial
  · rintro h _ rfl -
    exact h

end World

namespace Program

/-- The weakest precondition of a program of one party: however the world evolves
between its requests, every request keeps the invariant and the result satisfies the
postcondition. -/
def wp (W : World Req Resp σ ι) (i : ι) :
    Program Req Resp α → (α → σ → Prop) → σ → Prop
  | done a, Q, s => W.Later (Q a) s
  | send r k, Q, s =>
      W.Later (fun s₁ => ∀ s₂ x, W.answers i s₁ r s₂ x → W.good s₂ ∧ (k x).wp W i Q s₂) s

variable {W : World Req Resp σ ι} {i : ι} {p : Program Req Resp α}
  {Q Q' : α → σ → Prop} {s s' : σ}

/-- A weakest precondition survives the evolution of the world. -/
theorem wp_evolve (h : p.wp W i Q s) (hevolves : W.evolves s s') : p.wp W i Q s' := by
  cases p with
  | done a => exact World.Later.evolve h hevolves
  | send r k => exact World.Later.evolve h hevolves

/-- It is enough to hold later. -/
theorem wp_of_later (h : W.Later (p.wp W i Q) s) : p.wp W i Q s := by
  cases p with
  | done a => exact fun s' hs' hgood => h s' hs' hgood s' (W.evolves_refl s') hgood
  | send r k => exact fun s' hs' hgood => h s' hs' hgood s' (W.evolves_refl s') hgood

/-- The rule of consequence. -/
theorem wp_mono (h : p.wp W i Q s) (hQ : ∀ a s', W.good s' → Q a s' → Q' a s') :
    p.wp W i Q' s := by
  induction p generalizing s with
  | done a => exact fun s' hs' hgood => hQ a s' hgood (h s' hs' hgood)
  | send r k ih =>
    intro s₁ hs₁ hgood s₂ x hanswer
    obtain ⟨hgood₂, hrest⟩ := h s₁ hs₁ hgood s₂ x hanswer
    exact ⟨hgood₂, ih x hrest⟩

/-- The rule of sequencing. -/
theorem wp_bind {p : Program Req Resp α} {f : α → Program Req Resp β} {Q : β → σ → Prop}
    {s : σ} (h : p.wp W i (fun a s => (f a).wp W i Q s) s) : (p >>= f).wp W i Q s := by
  induction p generalizing s with
  | done a => exact wp_of_later h
  | send r k ih =>
    intro s₁ hs₁ hgood s₂ x hanswer
    obtain ⟨hgood₂, hrest⟩ := h s₁ hs₁ hgood s₂ x hanswer
    exact ⟨hgood₂, ih x hrest⟩

/-- What is proved of the history holds of every run. -/
theorem wp_run {Q : α → List (Req × Resp) → Prop} {before : List (Req × Resp)}
    (h : p.wp World.history () Q before) (replies : ℕ → Resp) :
    Q (p.run replies).2 (before ++ (p.run replies).1) := by
  induction p generalizing before replies with
  | done a =>
    rw [run, List.append_nil]
    exact World.later_history.mp h
  | send r k ih =>
    have hrest := (World.later_history.mp h _ (replies 0) rfl).2
    have := ih (replies 0) hrest fun n => replies (n + 1)
    rwa [List.append_assoc, List.singleton_append] at this

/-- A program of one party that no other party interrupts. -/
inductive Executes (W : World Req Resp σ ι) (i : ι) :
    σ → Program Req Resp α → σ → α → Prop
  | done (s : σ) (a : α) : Executes W i s (.done a) s a
  | send {s s' s'' : σ} {r : Req} {k : Resp → Program Req Resp α} {x : Resp} {a : α} :
      W.answers i s r s' x → Executes W i s' (k x) s'' a → Executes W i s (.send r k) s'' a

/-- An execution keeps the invariant and satisfies the postcondition. -/
theorem Executes.sound {a : α} (hexec : Executes W i s p s' a) (hgood : W.good s)
    (h : p.wp W i Q s) : W.good s' ∧ Q a s' := by
  induction hexec with
  | done s a => exact ⟨hgood, h s (W.evolves_refl s) hgood⟩
  | @send s _ _ _ _ _ _ hanswer _ ih =>
    obtain ⟨hgood', hrest⟩ := h s (W.evolves_refl s) hgood _ _ hanswer
    exact ih hgood' hrest

end Program

/-! ## Interleaving -/

/-- The state of the world and what is left of every party's program. -/
structure System (Req Resp σ ι α : Type) where
  state : σ
  programs : ι → Program Req Resp α

namespace System

variable [DecidableEq ι] {W : World Req Resp σ ι} {drift : σ → σ → Prop}
  {Q : ι → α → σ → Prop}

/-- One request of one party is answered, or the world drifts by itself. -/
inductive Step (W : World Req Resp σ ι) (drift : σ → σ → Prop) :
    System Req Resp σ ι α → System Req Resp σ ι α → Prop
  | request {c : System Req Resp σ ι α} {i : ι} {r : Req} {k : Resp → Program Req Resp α} {s : σ}
      {x : Resp} (hprogram : c.programs i = .send r k) (hanswer : W.answers i c.state r s x) :
      Step W drift c ⟨s, Function.update c.programs i (k x)⟩
  | drift {c : System Req Resp σ ι α} {s : σ} (hdrift : drift c.state s) :
      Step W drift c ⟨s, c.programs⟩

/-- The invariant of the world holds, and every party is on the way to its
postcondition. -/
def Sound (W : World Req Resp σ ι) (Q : ι → α → σ → Prop) (c : System Req Resp σ ι α) : Prop :=
  W.good c.state ∧ ∀ i, (c.programs i).wp W i (Q i) c.state

/-- Steps keep a system sound, when answering a request and drifting are ways for the
world to evolve. -/
theorem Sound.step {c c' : System Req Resp σ ι α} (hsound : c.Sound W Q)
    (hstep : Step W drift c c')
    (hanswers : ∀ i s r s' x, W.answers i s r s' x → W.evolves s s')
    (hdrifts : ∀ s s', W.good s → drift s s' → W.evolves s s' ∧ W.good s') :
    c'.Sound W Q := by
  obtain ⟨hgood, hwp⟩ := hsound
  cases hstep with
  | @request i r k s x hprogram hanswer =>
    have hi := hwp i
    rw [hprogram] at hi
    obtain ⟨hgood', hrest⟩ := hi c.state (W.evolves_refl _) hgood s x hanswer
    refine ⟨hgood', fun j => ?_⟩
    by_cases hj : j = i
    · subst hj
      simpa using hrest
    · dsimp only
      rw [Function.update_of_ne hj]
      exact Program.wp_evolve (hwp j) (hanswers i _ r _ x hanswer)
  | drift hdrift =>
    obtain ⟨hevolves, hgood'⟩ := hdrifts _ _ hgood hdrift
    exact ⟨hgood', fun j => Program.wp_evolve (hwp j) hevolves⟩

/-- Whatever the interleaving, a party that has finished satisfies its postcondition in
the state of the world. -/
theorem Sound.reachable {c c' : System Req Resp σ ι α} (hsound : c.Sound W Q)
    (hsteps : Relation.ReflTransGen (Step W drift) c c')
    (hanswers : ∀ i s r s' x, W.answers i s r s' x → W.evolves s s')
    (hdrifts : ∀ s s', W.good s → drift s s' → W.evolves s s' ∧ W.good s') :
    W.good c'.state ∧ ∀ i a, c'.programs i = .done a → Q i a c'.state := by
  have hsound' : c'.Sound W Q := by
    induction hsteps with
    | refl => exact hsound
    | tail _ hstep ih => exact ih.step hstep hanswers hdrifts
  refine ⟨hsound'.1, fun i a hdone => ?_⟩
  have hi := hsound'.2 i
  rw [hdone] at hi
  exact hi _ (W.evolves_refl _) hsound'.1

/-- A party that no other interrupts is one way to interleave. -/
theorem steps_of_executes {i : ι} {p : Program Req Resp α} {s s' : σ} {a : α}
    (hexec : Program.Executes W i s p s' a) (programs : ι → Program Req Resp α)
    (hprogram : programs i = p) :
    Relation.ReflTransGen (Step W drift) ⟨s, programs⟩
      ⟨s', Function.update programs i (.done a)⟩ := by
  induction hexec generalizing programs with
  | done s a => rw [← hprogram, Function.update_eq_self]
  | @send s s' s'' r k x a hanswer _ ih =>
    refine .head (.request hprogram hanswer) ?_
    have hrest := ih (Function.update programs i (k x)) (Function.update_self i _ _)
    rwa [Function.update_idem] at hrest

end System

/-! ## Exceptions and local variables -/

/-- A computation with local variables that sends requests and can raise. The local
variables outlive an exception. -/
def Process (Req Resp ε L α : Type) := L → Program Req Resp (Except ε α × L)

namespace Process

variable {ε L : Type}

instance : Monad (Process Req Resp ε L) where
  pure a := fun l => .done (.ok a, l)
  bind m f := fun l => m l >>= fun
    | (.ok a, l') => f a l'
    | (.error e, l') => .done (.error e, l')

/-- Raise an exception. -/
def raise (e : ε) : Process Req Resp ε L α := fun l => .done (.error e, l)

/-- Change the local variables. -/
def assign (f : L → L) : Process Req Resp ε L Unit := fun l => .done (.ok (), f l)

/-- Send one request. -/
def ask (r : Req) : Process Req Resp ε L Resp := fun l => .send r fun x => .done (.ok x, l)

/-- Handle an exception. -/
def recover (m : Process Req Resp ε L α) (handler : ε → Process Req Resp ε L α) :
    Process Req Resp ε L α :=
  fun l => m l >>= fun
    | (.ok a, l') => .done (.ok a, l')
    | (.error e, l') => handler e l'

/-- Run a step that neither sends a request nor touches the local variables. -/
def lift (x : Except ε α) : Process Req Resp ε L α := fun l => .done (x, l)

/-- The weakest precondition of a process. -/
def wp (W : World Req Resp σ ι) (i : ι) (m : Process Req Resp ε L α)
    (Q : Except ε α → L → σ → Prop) (l : L) (s : σ) : Prop :=
  (m l).wp W i (fun r s => Q r.1 r.2 s) s

variable {W : World Req Resp σ ι} {i : ι} {l : L} {s : σ}
  {Q Q' : Except ε α → L → σ → Prop}

/-- The rule of sequencing: an exception skips what follows. -/
theorem wp_bind {m : Process Req Resp ε L α} {f : α → Process Req Resp ε L β}
    {Q : Except ε β → L → σ → Prop}
    (h : m.wp W i (fun r l s => match r with
      | .ok a => (f a).wp W i Q l s
      | .error e => W.Later (Q (.error e) l) s) l s) : (m >>= f).wp W i Q l s := by
  refine Program.wp_bind (Program.wp_mono h ?_)
  rintro ⟨_ | a, l'⟩ s' - h'
  · exact h'
  · exact h'

/-- The rule of consequence. -/
theorem wp_mono {m : Process Req Resp ε L α} (h : m.wp W i Q l s)
    (hQ : ∀ r l s, W.good s → Q r l s → Q' r l s) : m.wp W i Q' l s :=
  Program.wp_mono h fun r s hgood => hQ r.1 r.2 s hgood

/-- It is enough to hold later. -/
theorem wp_of_later {m : Process Req Resp ε L α} (h : W.Later (m.wp W i Q l) s) :
    m.wp W i Q l s :=
  Program.wp_of_later h

@[simp] theorem wp_pure {a : α} :
    (pure a : Process Req Resp ε L α).wp W i Q l s ↔ W.Later (Q (.ok a) l) s := Iff.rfl

@[simp] theorem wp_raise {e : ε} :
    (raise e : Process Req Resp ε L α).wp W i Q l s ↔ W.Later (Q (.error e) l) s := Iff.rfl

@[simp] theorem wp_lift {x : Except ε α} :
    (lift x : Process Req Resp ε L α).wp W i Q l s ↔ W.Later (Q x l) s := Iff.rfl

@[simp] theorem wp_assign {f : L → L} {Q : Except ε Unit → L → σ → Prop} :
    (assign f : Process Req Resp ε L Unit).wp W i Q l s ↔ W.Later (Q (.ok ()) (f l)) s := Iff.rfl

/-- The rule of a single request. -/
theorem wp_ask {r : Req} {Q : Except ε Resp → L → σ → Prop}
    (h : W.Later (fun s₁ => ∀ s₂ x, W.answers i s₁ r s₂ x →
      W.good s₂ ∧ W.Later (Q (.ok x) l) s₂) s) :
    (ask r : Process Req Resp ε L Resp).wp W i Q l s :=
  h

/-- The weakest precondition of a process survives the evolution of the world. -/
theorem wp_evolve {m : Process Req Resp ε L α} {s' : σ} (h : m.wp W i Q l s)
    (hevolves : W.evolves s s') : m.wp W i Q l s' :=
  Program.wp_evolve h hevolves

/-- The rule of a check before what follows. -/
theorem wp_lift_bind {x : Except ε α} {f : α → Process Req Resp ε L β}
    {Q : Except ε β → L → σ → Prop} (herror : ∀ e, x = .error e → W.Later (Q (.error e) l) s)
    (hok : ∀ a, x = .ok a → (f a).wp W i Q l s) : (lift x >>= f).wp W i Q l s := by
  refine wp_bind (wp_lift.mpr fun s' hs' _ => ?_)
  cases x with
  | error e => exact (herror e rfl).evolve hs'
  | ok a => exact wp_evolve (hok a rfl) hs'

/-- Checks one after another are one check. -/
theorem lift_bind_lift {γ : Type} (x : Except ε α) (f : α → Except ε β)
    (g : β → Process Req Resp ε L γ) :
    (lift x >>= fun a => lift (f a) >>= g) = (lift (x >>= f) >>= g) := by
  cases x <;> rfl

/-- The rule of an assignment before what follows. -/
theorem wp_assign_bind {g : L → L} {f : Unit → Process Req Resp ε L β}
    {Q : Except ε β → L → σ → Prop} (h : (f ()).wp W i Q (g l) s) :
    (assign g >>= f).wp W i Q l s :=
  wp_bind (wp_assign.mpr fun _ hs' _ => wp_evolve h hs')

/-- The rule of handled exceptions. -/
theorem wp_recover {m : Process Req Resp ε L α} {handler : ε → Process Req Resp ε L α}
    (h : m.wp W i (fun r l s => match r with
      | .ok a => W.Later (Q (.ok a) l) s
      | .error e => (handler e).wp W i Q l s) l s) : (m.recover handler).wp W i Q l s := by
  refine Program.wp_bind (Program.wp_mono h ?_)
  rintro ⟨_ | a, l'⟩ s' - h'
  · exact h'
  · exact h'

end Process

end ContributorGateway
