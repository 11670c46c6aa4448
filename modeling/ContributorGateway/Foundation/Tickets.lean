import ContributorGateway.Foundation.Machine
import Mathlib.Data.List.Nodup
import Mathlib.Data.List.Perm.Subperm
import Mathlib.Data.Set.Insert

/-!
# Tickets that are used once

A desk issues tickets under fresh names. A ticket can be presented in vain a limited
number of times, after which it is void, and it can be spent once. Tickets may also be
lost, which a desk that keeps them does not notice: its runs bound those of every desk
that loses some.
-/

namespace ContributorGateway

variable {Ticket : Type*}

/-- What happens to a ticket. -/
inductive TicketEvent (Ticket : Type*) where
  | issued (t : Ticket)
  | failed (t : Ticket)
  | spent (t : Ticket)
  deriving DecidableEq

/-- The tickets in use with their failures, and the names of all tickets so far. -/
structure Desk (Ticket : Type*) where
  pending : Ticket → Option ℕ
  issued : Set Ticket

namespace Desk

/-- The ticket that an event issues. -/
def issuedTicket : TicketEvent Ticket → Option Ticket
  | .issued t => some t
  | _ => none

/-- The ticket that an event spends. -/
def spentTicket : TicketEvent Ticket → Option Ticket
  | .spent t => some t
  | _ => none

theorem issuedTicket_eq_some_iff {e : TicketEvent Ticket} {t : Ticket} :
    issuedTicket e = some t ↔ e = .issued t := by
  cases e <;> simp [issuedTicket]

theorem spentTicket_eq_some_iff {e : TicketEvent Ticket} {t : Ticket} :
    spentTicket e = some t ↔ e = .spent t := by
  cases e <;> simp [spentTicket]

variable [DecidableEq Ticket] (limit : ℕ)

/-- What remains of a ticket after a failure. -/
def afterFailure (failures : ℕ) : Option ℕ :=
  if limit ≤ failures + 1 then none else some (failures + 1)

/-- The steps of a desk. -/
inductive Step : Desk Ticket → TicketEvent Ticket → Desk Ticket → Prop
  | issued {desk : Desk Ticket} {t : Ticket} (hfresh : t ∉ desk.issued) :
      Step desk (.issued t) ⟨Function.update desk.pending t (some 0), insert t desk.issued⟩
  | failed {desk : Desk Ticket} {t : Ticket} {failures : ℕ}
      (hpending : desk.pending t = some failures) :
      Step desk (.failed t)
        { desk with pending := Function.update desk.pending t (afterFailure limit failures) }
  | spent {desk : Desk Ticket} {t : Ticket} {failures : ℕ}
      (hpending : desk.pending t = some failures) :
      Step desk (.spent t) { desk with pending := Function.update desk.pending t none }

/-- A desk that has not issued any ticket yet. -/
def machine : Machine (Desk Ticket) (TicketEvent Ticket) where
  start desk := desk.pending = (fun _ => none) ∧ desk.issued = ∅
  step := Step limit

/-- What the history tells of a ticket: unknown tickets do not occur in it, a pending one
was issued and not spent and its failures stay below the limit, and no ticket is spent
twice or fails more often than the limit. -/
structure Account (limit : ℕ) (history : List (TicketEvent Ticket)) (desk : Desk Ticket)
    (t : Ticket) : Prop where
  known : t ∈ desk.issued ↔ .issued t ∈ history
  unknown : t ∉ desk.issued → desk.pending t = none ∧ history.count (.failed t) = 0 ∧
    history.count (.spent t) = 0
  pending : ∀ failures, desk.pending t = some failures →
    failures = history.count (.failed t) ∧ failures < limit ∧ history.count (.spent t) = 0
  failures : history.count (.failed t) ≤ limit
  once : history.count (.spent t) ≤ 1

variable {limit} {history pre post : List (TicketEvent Ticket)} {desk : Desk Ticket}

/-- A ticket in use was issued. -/
theorem Account.issued_of_pending {t : Ticket} {failures : ℕ}
    (h : Account limit history desk t) (hpending : desk.pending t = some failures) :
    t ∈ desk.issued := by
  by_contra hunknown
  simp [(h.unknown hunknown).1] at hpending

/-- An event about another ticket changes no account. -/
theorem Account.other {t : Ticket} {desk' : Desk Ticket} {e : TicketEvent Ticket}
    (h : Account limit history desk t) (hpending : desk'.pending t = desk.pending t)
    (hissued : t ∈ desk'.issued ↔ t ∈ desk.issued) (hi : e ≠ .issued t) (hf : e ≠ .failed t)
    (hs : e ≠ .spent t) : Account limit (history ++ [e]) desk' t := by
  have hfailed : (history ++ [e]).count (.failed t) = history.count (.failed t) := by
    simp [List.count_append, hf]
  have hspent : (history ++ [e]).count (.spent t) = history.count (.spent t) := by
    simp [List.count_append, hs]
  constructor
  · rw [hissued, h.known, List.mem_append, List.mem_singleton]
    simp [Ne.symm hi]
  · rw [hissued, hpending, hfailed, hspent]
    exact h.unknown
  · rw [hpending, hfailed, hspent]
    exact h.pending
  · rw [hfailed]
    exact h.failures
  · rw [hspent]
    exact h.once

/-- Every step keeps the accounts. -/
theorem Account.step {desk' : Desk Ticket} {e : TicketEvent Ticket} (hlimit : 0 < limit)
    (h : ∀ t, Account limit history desk t) (hstep : Step limit desk e desk') (t : Ticket) :
    Account limit (history ++ [e]) desk' t := by
  cases hstep with
  | @issued u hfresh =>
    by_cases htu : t = u
    · subst htu
      obtain ⟨-, hfailed, hspent⟩ := (h t).unknown hfresh
      constructor <;> simp [List.count_append, hfailed, hspent, hlimit]
    · exact (h t).other (Function.update_of_ne htu ..) (by simp [htu]) (by simp [Ne.symm htu])
        (by simp) (by simp)
  | @failed u failures hpending =>
    by_cases htu : t = u
    · subst htu
      obtain ⟨hcount, hbelow, hspent⟩ := (h t).pending failures hpending
      have hknown := (h t).issued_of_pending hpending
      have hissued := (h t).known.mp hknown
      constructor
      · simp [hknown, hissued]
      · simp [hknown]
      · intro failures' hfailures'
        simp only [Function.update_self, afterFailure] at hfailures'
        split_ifs at hfailures' with hvoid
        obtain rfl := Option.some.inj hfailures'
        simp [List.count_append, ← hcount, hspent]
        omega
      · simp [List.count_append, ← hcount]
        omega
      · simp [List.count_append, hspent]
    · exact (h t).other (Function.update_of_ne htu ..) Iff.rfl (by simp) (by simp [Ne.symm htu])
        (by simp)
  | @spent u failures hpending =>
    by_cases htu : t = u
    · subst htu
      obtain ⟨hcount, hbelow, hspent⟩ := (h t).pending failures hpending
      have hknown := (h t).issued_of_pending hpending
      have hissued := (h t).known.mp hknown
      constructor
      · simp [hknown, hissued]
      · simp [hknown]
      · simp
      · simp [List.count_append, ← hcount]
        omega
      · simp [List.count_append, hspent]
    · exact (h t).other (Function.update_of_ne htu ..) Iff.rfl (by simp) (by simp)
        (by simp [Ne.symm htu])

/-- Every run of a desk keeps the accounts. -/
theorem accounts (hlimit : 0 < limit) (hrun : (machine limit).Run history desk) (t : Ticket) :
    Account limit history desk t := by
  refine hrun.invariant (P := fun history desk => ∀ t, Account limit history desk t) ?_ ?_ t
  · rintro desk ⟨hpending, hissued⟩ t
    constructor <;> simp [hpending, hissued]
  · intro history desk e desk' _ ih hstep
    exact Account.step hlimit ih hstep

/-- No ticket fails more often than the limit. -/
theorem failures_le (hlimit : 0 < limit) (hrun : (machine limit).Run history desk)
    (t : Ticket) : history.count (.failed t) ≤ limit :=
  (accounts hlimit hrun t).failures

/-- No ticket is spent twice. -/
theorem spent_le_one (hlimit : 0 < limit) (hrun : (machine limit).Run history desk)
    (t : Ticket) : history.count (.spent t) ≤ 1 :=
  (accounts hlimit hrun t).once

/-- A ticket is spent after it was issued and before its failures reached the limit. -/
theorem spent_after {t : Ticket} (hlimit : 0 < limit)
    (hrun : (machine limit).Run (pre ++ .spent t :: post) desk) :
    .issued t ∈ pre ∧ pre.count (.failed t) < limit := by
  obtain ⟨desk₁, desk₂, hrun₁, hstep⟩ := hrun.step_of_mem
  have h := accounts hlimit hrun₁ t
  cases hstep with
  | @spent t failures hpending =>
    obtain ⟨hcount, hbelow, -⟩ := h.pending failures hpending
    exact ⟨h.known.mp (h.issued_of_pending hpending), by omega⟩

/-- At most as many tickets are spent as were issued. -/
theorem spent_le_issued (hlimit : 0 < limit) (hrun : (machine limit).Run history desk) :
    (history.filterMap spentTicket).length ≤ (history.filterMap issuedTicket).length := by
  have hcount (t : Ticket) : (history.filterMap spentTicket).count t ≤ 1 := by
    have hsame : (history.filterMap spentTicket).count t = history.count (.spent t) := by
      rw [List.count_filterMap, List.count]
      refine List.countP_congr fun e _ => ?_
      cases e <;> simp [spentTicket]
    rw [hsame]
    exact spent_le_one hlimit hrun t
  refine (List.Nodup.subperm (List.nodup_iff_count_le_one.mpr hcount) ?_).length_le
  intro t ht
  obtain ⟨e, he, hspent⟩ := List.mem_filterMap.mp ht
  obtain rfl := spentTicket_eq_some_iff.mp hspent
  obtain ⟨pre, post, rfl⟩ := List.append_of_mem he
  exact List.mem_filterMap.mpr
    ⟨.issued t, List.mem_append_left _ (spent_after hlimit hrun).1, rfl⟩

end Desk

end ContributorGateway
