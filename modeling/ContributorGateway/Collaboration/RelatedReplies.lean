import ContributorGateway.Collaboration.RequestTrace
import ContributorGateway.Foundation.RelatedRuns

/-!
# Replies that differ in their payloads

Two replies with the same status and headers whose payloads are related lead a session
through the same attempts to related payloads. The case that matters is an array of the
payload that GitHub lists in another order.
-/

namespace ContributorGateway

/-- The replies are the same, but for payloads that are related. -/
inductive OnPayload (P : Json → Json → Prop) : Reply → Reply → Prop
  | requestError : OnPayload P .requestError .requestError
  | exception (name : String) : OnPayload P (.exception name) (.exception name)
  | noObject {r : Response} (hbody : r.body.filter isDict = none) :
      OnPayload P (.response r) (.response r)
  | body {r : Response} {p p' : Json} (hbody : r.body = some p) (h : P p p') :
      OnPayload P (.response r) (.response { r with body := some p' })

/-- The payloads are objects that differ only in the order of one array. -/
structure Rearranged (key : String) (allowed : List Json → Prop) (p p' : Json) : Prop where
  isObject : isDict p = true
  isObject' : isDict p' = true
  others : ∀ other, other ≠ key → p'.get other = p.get other
  items : p'.get key = p.get key ∨ ∃ items items', p.get key = some (.arr items) ∧
    p'.get key = some (.arr items') ∧ items.Perm items' ∧ allowed items

/-- Replies stay related under a wider relation of payloads. -/
theorem OnPayload.mono {P Q : Json → Json → Prop} {x x' : Reply} (h : OnPayload P x x')
    (hPQ : ∀ p p', P p p' → Q p p') : OnPayload Q x x' := by
  cases h with
  | requestError => exact .requestError
  | exception name => exact .exception name
  | noObject hbody => exact .noObject hbody
  | body hbody h => exact .body hbody (hPQ _ _ h)

section Rules

variable {P : Json → Json → Prop} {x x' : Reply}

/-- Related payloads are received from related replies. -/
theorem OnPayload.received (hP : ∀ p p', P p p' → isDict p = true ∧ isDict p' = true)
    (h : OnPayload P x x') : (received isDict x = none ∧ received isDict x' = none) ∨
      ∃ p p', received isDict x = some p ∧ received isDict x' = some p' ∧ P p p' := by
  cases h with
  | requestError => exact Or.inl ⟨rfl, rfl⟩
  | exception name => exact Or.inl ⟨rfl, rfl⟩
  | @noObject r hbody =>
    have hnone : ContributorGateway.received isDict (.response r) = none := by
      rw [ContributorGateway.received, hbody, ite_self]
    exact Or.inl ⟨hnone, hnone⟩
  | @body r p p' hbody h =>
    obtain ⟨hp, hp'⟩ := hP p p' h
    by_cases hsuccess : 200 ≤ r.status ∧ r.status < 300
    · refine Or.inr ⟨p, p', ?_, ?_, h⟩
      · rw [ContributorGateway.received, if_pos hsuccess, hbody, Option.filter, if_pos hp]
      · rw [ContributorGateway.received, if_pos hsuccess, Option.filter, if_pos hp']
    · exact Or.inl ⟨by rw [ContributorGateway.received, if_neg hsuccess],
        by rw [ContributorGateway.received, if_neg hsuccess]⟩

/-- An attempt with related replies fails in the same way or yields related payloads. -/
theorem OnPayload.attemptResult {tables : CaseTables} {credential : Bool}
    (hP : ∀ p p', P p p' → isDict p = true ∧ isDict p' = true) (h : OnPayload P x x') :
    (attemptResult tables isDict credential x' = attemptResult tables isDict credential x ∧
      ∀ v, attemptResult tables isDict credential x ≠ some (.ok v)) ∨
      ∃ p p', attemptResult tables isDict credential x = some (.ok p) ∧
        attemptResult tables isDict credential x' = some (.ok p') ∧ P p p' := by
  rcases h.received hP with ⟨hnone, -⟩ | ⟨p, p', hp, hp', hrelated⟩
  · refine Or.inl ⟨?_, fun v hv => ?_⟩
    · cases h with
      | requestError => rfl
      | exception name => rfl
      | noObject hbody => rfl
      | @body r p p' hbody h =>
        have hfailed : ¬ (200 ≤ r.status ∧ r.status < 300) := by
          intro hsuccess
          rw [ContributorGateway.received, if_pos hsuccess, hbody, Option.filter,
            if_pos (hP p p' h).1] at hnone
          cases hnone
        unfold ContributorGateway.attemptResult
        dsimp only
        rw [if_neg hfailed, if_neg hfailed]
        rfl
    · rw [attemptResult_eq_ok_iff, hnone] at hv
      cases hv
  · exact Or.inr ⟨p, p', attemptResult_eq_ok_iff.mpr hp, attemptResult_eq_ok_iff.mpr hp', hrelated⟩

/-- The status of related replies is recorded in the same way. -/
theorem OnPayload.record {L : Type} (h : OnPayload P x x') (trail : Trail L) :
    trail.record x' = trail.record x := by
  cases h <;> rfl

/-- Related replies to a safe request yield related payloads. -/
theorem related_get {L : Type} (tables : CaseTables) (request : GitHubRequest)
    (credential : Bool) (hP : ∀ p p', P p p' → isDict p = true ∧ isDict p' = true) :
    Process.Related (OnPayload P) P (get tables request credential : Session L Json)
      (get tables request credential) := by
  unfold ContributorGateway.get
  induction maxAttempts with
  | zero => exact Process.Related.raise _
  | succ attempts ih =>
    refine Process.Related.bind (Process.Related.ask request) fun x x' hx => ?_
    refine Process.Related.bind (S := Eq) (fun trail => ?_) fun _ _ _ => ?_
    · exact .done ⟨(hx.record trail).symm, rfl⟩
    · have hresult := @OnPayload.attemptResult P x x' tables credential hP hx
      rcases hresult with ⟨hsame, hfails⟩ | ⟨p, p', hp, hp', h⟩
      · rw [hsame]
        cases hattempt : attemptResult tables isDict credential x with
        | none => exact ih
        | some result =>
          cases result with
          | error e => exact Process.Related.lift rfl
          | ok v => exact absurd hattempt (hfails v)
      · rw [hp, hp']
        exact Process.Related.lift h

end Rules

end ContributorGateway
