import ContributorGateway.Mcp.ClientRegistry

/-!
# Failed registrations

`put` assigns the client before it serializes the registry and replaces the file. A later
step that raises leaves the file as it was, and the client in memory.
-/

namespace ContributorGateway.ClientRegistry

open Json

/-- The steps of `put` after the assignment that may raise: the serialization, and the four
steps of `_write_private_file`. -/
inductive PutStep where
  | serialize
  | mkstemp
  | fchmod
  | write
  | replace
  deriving DecidableEq

/-- The exceptions that leave `put`: its own, and that of a failing step. -/
inductive PutException where
  | raised (error : PutError)
  | failed (step : PutStep)
  deriving DecidableEq

/-- The directory of a registry: its file, and the temporary file beside it. -/
structure Directory where
  file : Option PrivateFile
  temporary : Option PrivateFile

/-- `_write_private_file` when one of its steps may raise. The temporary file is unlinked on
the way out. -/
def writePrivateFileFailing (failing : Option PutStep) (data : List UInt8) (d : Directory) :
    Except PutException Unit × Directory :=
  if failing = some .mkstemp then (.error (.failed .mkstemp), d)
  else
    let created : Directory := { d with temporary := some ⟨.regular, 0o600, []⟩ }
    if failing = some .fchmod then
      (.error (.failed .fchmod), { created with temporary := none })
    else if failing = some .write then
      (.error (.failed .write), { created with temporary := none })
    else if failing = some .replace then
      (.error (.failed .replace), { created with temporary := none })
    else (.ok (), ⟨some (writePrivateFile data), none⟩)

variable {Client : Type} (m : ClientModel Client)

/-- `put` when one of its steps may raise. -/
def ClientModel.putFailing (failing : Option PutStep) (r : Registry Client) (client : Client) :
    Except PutException Unit × Registry Client :=
  match m.clientId client with
  | none =>
      (.error (.raised (.valueError "client_id is required for client registration")), r)
  | some clientId =>
      if r.get clientId = none ∧ maxRegisteredClients ≤ r.clients.length then
        (.error (.raised (.registrationError "invalid_client_metadata"
          "device client registry capacity reached")), r)
      else
        let clients := setItem clientId client r.clients
        if failing = some .serialize then
          (.error (.failed .serialize), ⟨clients, r.file⟩)
        else
          let written := writePrivateFileFailing failing
            (utf8Encode (dumpsIndent 0 (m.payload clients))) ⟨r.file, none⟩
          (written.1, ⟨clients, written.2.file⟩)

/-- A registration that raises leaves every client and the file as they were. -/
def RegistersAtomically (failing : Option PutStep) (r : Registry Client) (client : Client) : Prop :=
  (∃ e, (m.putFailing failing r client).1 = .error e) →
    (∀ clientId, (m.putFailing failing r client).2.get clientId = r.get clientId) ∧
      (m.putFailing failing r client).2.file = r.file

variable {m}

/-- Without a failing step this is `put`. -/
theorem putFailing_none (r : Registry Client) (client : Client) :
    m.putFailing none r client =
      match m.put r client with
      | .error e => (.error (.raised e), r)
      | .ok r' => (.ok (), r') := by
  unfold ClientModel.putFailing ClientModel.put
  cases m.clientId client with
  | none => rfl
  | some clientId =>
    by_cases hfull : r.get clientId = none ∧ maxRegisteredClients ≤ r.clients.length
    · simp only [if_pos hfull]
    · simp only [if_neg hfull]
      rfl

/-- A failing step of the writer leaves the file as it was. -/
theorem writePrivateFileFailing_some {step : PutStep} (hstep : step ≠ .serialize)
    (data : List UInt8) (d : Directory) :
    (writePrivateFileFailing (some step) data d).1 = .error (.failed step) ∧
      (writePrivateFileFailing (some step) data d).2.file = d.file := by
  cases step with
  | serialize => exact absurd rfl hstep
  | mkstemp => exact ⟨rfl, rfl⟩
  | fchmod => exact ⟨rfl, rfl⟩
  | write => exact ⟨rfl, rfl⟩
  | replace => exact ⟨rfl, rfl⟩

/-- What is found after an assignment. -/
theorem lookup_setItem (key : String) (value : Client) (clients : List (String × Client))
    (key' : String) :
    (setItem key value clients).lookup key' =
      if key' = key then some value else clients.lookup key' := by
  induction clients with
  | nil =>
    by_cases hkey : key' = key
    · simp [setItem, hkey]
    · have hne : (key' == key) = false := by simpa using hkey
      simp [setItem, List.lookup_cons, hne, hkey]
  | cons item rest ih =>
    rw [setItem]
    by_cases hitem : item.1 = key
    · rw [if_pos hitem, List.lookup_cons, List.lookup_cons, hitem]
      by_cases hkey : key' = key
      · simp [hkey]
      · have hne : (key' == key) = false := by simpa using hkey
        simp [hne, hkey]
    · rw [if_neg hitem, List.lookup_cons, List.lookup_cons, ih]
      by_cases hkey : key' = key
      · have hne : (key == item.1) = false := by
          simpa using fun h : key = item.1 => hitem h.symm
        simp [hkey, hne]
      · simp [hkey]

/-- What a failing step leaves: the client in memory, and the file as it was. -/
theorem putFailing_some {r : Registry Client} {client : Client} {clientId : String}
    (hid : m.clientId client = some clientId)
    (hroom : ¬ (r.get clientId = none ∧ maxRegisteredClients ≤ r.clients.length))
    (step : PutStep) :
    m.putFailing (some step) r client =
      (.error (.failed step), ⟨setItem clientId client r.clients, r.file⟩) := by
  simp only [ClientModel.putFailing, hid, if_neg hroom, Option.some_inj]
  split_ifs with hserialize
  · rw [hserialize]
  · obtain ⟨hraised, hfile⟩ := writePrivateFileFailing_some hserialize
      (utf8Encode (dumpsIndent 0 (m.payload (setItem clientId client r.clients)))) ⟨r.file, none⟩
    rw [hraised, hfile]

/-- A registration is atomic exactly when no step after the assignment fails, or the client
was registered before as it is. -/
theorem registersAtomically_iff (failing : Option PutStep) (r : Registry Client)
    (client : Client) :
    RegistersAtomically m failing r client ↔
      ∀ clientId, m.clientId client = some clientId →
        ¬ (r.get clientId = none ∧ maxRegisteredClients ≤ r.clients.length) → failing ≠ none →
          r.get clientId = some client := by
  cases failing with
  | none =>
    simp only [ne_eq, not_true_eq_false, false_imp_iff, implies_true, iff_true]
    intro hraises
    rw [putFailing_none] at hraises ⊢
    cases hput : m.put r client with
    | error e => simp
    | ok r' => simp [hput] at hraises
  | some step =>
    constructor
    · intro hatomic clientId hid hroom _
      have hleft := putFailing_some hid hroom step
      obtain ⟨hget, -⟩ := hatomic ⟨_, congrArg Prod.fst hleft⟩
      rw [← hget clientId, hleft, Registry.get, lookup_setItem, if_pos rfl]
    · intro h _
      unfold ClientModel.putFailing
      cases hid : m.clientId client with
      | none => simp
      | some clientId =>
        by_cases hroom : r.get clientId = none ∧ maxRegisteredClients ≤ r.clients.length
        · simp [hroom]
        · have hsame := h clientId hid hroom (by simp)
          have hleft := putFailing_some hid hroom step
          simp only [ClientModel.putFailing, hid] at hleft
          simp only [hleft, and_true]
          intro clientId'
          rw [Registry.get, lookup_setItem]
          split_ifs with heq
          · rw [heq, hsame]
          · rfl

/-- A client whose file could not be replaced is served, and is gone after a restart. -/
theorem unwritten_client_served :
    (namedClients.putFailing (some .replace) ⟨[], none⟩ ("a", "phone")).1 =
        .error (.failed .replace) ∧
      (namedClients.putFailing (some .replace) ⟨[], none⟩ ("a", "phone")).2.get "a" =
        some ("a", "phone") ∧
      (namedClients.putFailing (some .replace) ⟨[], none⟩ ("a", "phone")).2.file = none ∧
      ¬ RegistersAtomically namedClients (some .replace) ⟨[], none⟩ ("a", "phone") := by
  refine ⟨rfl, by decide +kernel, rfl, fun hatomic => ?_⟩
  obtain ⟨hget, -⟩ := hatomic ⟨_, rfl⟩
  exact absurd (hget "a") (by decide +kernel)

end ContributorGateway.ClientRegistry
