import ContributorGateway.Core.BranchStore

/-!
# A store that always answers

The store answers as a relation. This is the function that applies every request and
delivers its reply, so that whole calls can be run.
-/

namespace ContributorGateway.OpenPr

/-- A success with a body. -/
def okReply (payload : Json) : Reply := .response ⟨200, none, none, "", some payload⟩

/-- A refusal. -/
def statusReply (status : ℕ) : Reply := .response ⟨status, none, none, "", some (.obj [])⟩

/-- What a simulated GitHub gives to the next commit and pull request. -/
structure Names where
  sha : String
  number : ℤ
  url : String

/-- The payload of a ref. -/
def refPayload (sha : String) : Json := .obj [("object", .obj [("sha", .str sha)])]

/-- The payload of a pull request. -/
def pullPayload (number : ℤ) (url : String) : Json :=
  .obj [("number", .int number), ("html_url", .str url)]

/-- The payload of a commit. -/
def commitPayload (message : String) : Json :=
  .obj [("message", .str message), ("tree", .obj [("sha", .str "tree")])]

section Respond

variable {ι : Type} (tables : CaseTables) (branch : String) (names : Names) (i : ι)

/-- The reply about a ref, when the client can read it. -/
def refReply (sha : String) : Reply :=
  if refCommit tables (refPayload sha) = .ok sha then okReply (refPayload sha) else .requestError

/-- Store a new commit, unless its name is taken. -/
def storeCommit (s : Store ι) (message parent : String) : Store ι × Reply :=
  if s.commits names.sha = none ∧ requireString (some (.str names.sha)) = .ok names.sha ∧
      tables.lower names.sha = names.sha then
    ({ s with commits := Function.update s.commits names.sha (some ⟨message, parent⟩) },
      okReply (.obj [("sha", .str names.sha)]))
  else (s, .requestError)

/-- Store a new pull request, unless there is one. -/
def storePull (s : Store ι) : Store ι × Reply :=
  match s.pull with
  | some _ => (s, statusReply 422)
  | none =>
      if requireInt (some (.int names.number)) = .ok names.number ∧
          requireString (some (.str names.url)) = .ok names.url then
        ({ s with pull := some (names.number, names.url) },
          okReply (pullPayload names.number names.url))
      else (s, .requestError)

/-- The reply to the query for open pull requests. -/
def listReply (s : Store ι) : Reply :=
  match s.pull with
  | none => okReply (.arr [])
  | some (number, url) =>
      if requireInt (some (.int number)) = .ok number ∧
          requireString (some (.str url)) = .ok url then
        okReply (.arr [pullPayload number url])
      else .requestError

/-- Apply a request and answer it. -/
def respond (s : Store ι) : GitHubRequest → Store ι × Reply
  | .branchRef ref =>
      if ref = protectedBaseBranch then (s, refReply tables s.master)
      else if ref = branch then
        match s.head with
        | some sha => (s, refReply tables sha)
        | none => (s, statusReply 404)
      else (s, .requestError)
  | .gitCommit sha =>
      match s.commits sha with
      | some commit => (s, okReply (commitPayload commit.message))
      | none => (s, okReply (commitPayload ""))
  | .pulls head base =>
      if head = repositoryOwner ++ ":" ++ branch ∧ base = protectedBaseBranch then
        (s, listReply s)
      else (s, .requestError)
  | .postTree _ => (s, okReply (.obj [("sha", .str "tree")]))
  | .postCommit (.obj [("message", .str message), ("tree", .str _),
      ("parents", .arr [.str parent])]) => storeCommit tables names s message parent
  | .postRef (.obj [("ref", .str ref), ("sha", .str sha)]) =>
      if ref = "refs/heads/" ++ branch then
        match s.head with
        | none => ({ s with head := some sha, creator := some i }, okReply (.obj []))
        | some _ => (s, statusReply 422)
      else (s, .requestError)
  | .postPull (.obj [("title", .str _), ("body", .str _), ("head", .str head),
      ("base", .str base), ("maintainer_can_modify", .bool true), ("draft", .bool false)]) =>
      if head = branch ∧ base = protectedBaseBranch then storePull names s
      else (s, .requestError)
  | _ => (s, .requestError)

/-- Run a program of one party. -/
def simulate {α : Type} (s : Store ι) : Program GitHubRequest Reply α → Store ι × α
  | .done a => (s, a)
  | .send r k =>
      let next := respond tables branch names i s r
      simulate next.1 (k next.2)

variable {tables branch names i}

/-- A success delivers its body. -/
theorem delivers_okReply (payload : Json) : Delivers (okReply payload) payload :=
  ⟨_, rfl, Nat.le_refl 200, by simp, rfl⟩

/-- A lost request has failed. -/
theorem failed_requestError : Failed .requestError := Or.inl rfl

/-- The function answers as the relation allows. -/
theorem respond_answer (s : Store ι) (request : GitHubRequest) :
    Answer tables branch i s request (respond tables branch names i s request).1
      (respond tables branch names i s request).2 := by
  unfold respond
  split
  · rename_i ref
    split_ifs with hmaster hbranch
    · subst hmaster
      unfold refReply
      split_ifs with hread
      · exact .masterRead (delivers_okReply _) hread
      · exact .lost failed_requestError
    · subst hbranch
      cases hhead : s.head with
      | none => exact .refMissing hhead ⟨_, rfl, rfl⟩
      | some sha =>
        dsimp only
        unfold refReply
        split_ifs with hread
        · exact .refRead hhead (delivers_okReply _) hread
        · exact .lost failed_requestError
    · exact .lost failed_requestError
  · rename_i sha
    cases hcommit : s.commits sha with
    | none => exact .elsewhere hcommit
    | some commit => exact .commitRead hcommit (delivers_okReply _) rfl
  · rename_i head base
    split_ifs with hquery
    · obtain ⟨rfl, rfl⟩ := hquery
      dsimp only
      unfold listReply
      cases hpull : s.pull with
      | none => exact .noneListed hpull (delivers_okReply _)
      | some pull =>
        dsimp only
        split_ifs with hread
        · exact .pullListed hpull (delivers_okReply _) hread.1 hread.2
        · exact .lost failed_requestError
    · exact .lost failed_requestError
  · exact .elsewhere trivial
  · rename_i message tree parent
    unfold storeCommit
    split_ifs with hfree
    · refine .commitCreated (fun commit h => ?_) hfree.2.2.symm
        (Or.inr ⟨delivers_okReply _, hfree.2.1⟩)
      rw [hfree.1] at h
      cases h
    · exact .lost failed_requestError
  · rename_i ref sha
    split_ifs with href
    · subst href
      cases hhead : s.head with
      | none => exact .refCreated hhead (Or.inr (delivers_okReply _))
      | some sha' => exact .refExists (by rw [hhead]; exact nofun) ⟨_, rfl, rfl⟩
    · exact .lost failed_requestError
  · rename_i title text head base
    split_ifs with hpair
    · obtain ⟨rfl, rfl⟩ := hpair
      unfold storePull
      cases hpull : s.pull with
      | some pull => exact .pullExists (by rw [hpull]; exact nofun) ⟨_, rfl, rfl⟩
      | none =>
        dsimp only
        split_ifs with hread
        · exact .pullCreated hpull (Or.inr ⟨delivers_okReply _, hread.1, hread.2⟩)
        · exact .lost failed_requestError
    · exact .lost failed_requestError
  · exact .lost failed_requestError

/-- A simulated program is an execution. -/
theorem simulate_executes {args : ι → Args} {alone : Prop} {α : Type} (s : Store ι)
    (p : Program GitHubRequest Reply α) :
    Program.Executes (storeWorld tables branch args alone) i s p
      (simulate tables branch names i s p).1 (simulate tables branch names i s p).2 := by
  induction p generalizing s with
  | done a => exact .done s a
  | send r k ih => exact .send (respond_answer s r) (ih _ _)

end Respond

/-! ## A call -/

/-- The clock reading of the call is in range. -/
theorem notes_inRange : 63919123200000000 < maxMicros := by decide

/-- A call for the branch `contrib/notes`. -/
def notesArgs : Args where
  branch := .str "contrib/notes"
  title := .str "Add lift notes"
  body := .str ""
  files := .list [.dict [("path", .str "notes.md"), ("content", .str "lift")]]
  idempotencyKey := .str "session-1"
  callerIdentity := "github:alice"
  expectedBaseCommit := .none
  now := ⟨63919123200000000, notes_inRange⟩
  token := .token "t"

/-- GitHub before any call, with master at `c0`. -/
def newStore : Store Bool := ⟨"c0", none, none, fun _ => none, none⟩

/-- The case mappings, which matter to no text of the call. -/
def asciiTables : CaseTables := ⟨id, id⟩

/-- Run the call for one party. -/
def callNotes (i : Bool) (s : Store Bool) : Store Bool × Outcome :=
  simulate asciiTables "contrib/notes" ⟨"c1", 7, "https://github.com/pull/7"⟩ i s
    (openPr asciiTables notesArgs (some .reliable))

/-- The call alone is an execution. -/
theorem callNotes_executes (alone : Prop) (i : Bool) (s : Store Bool) :
    Program.Executes (storeWorld asciiTables "contrib/notes" (fun _ => notesArgs) alone) i s
      (openPr asciiTables notesArgs (some .reliable)) (callNotes i s).1 (callNotes i s).2 :=
  simulate_executes s _

end ContributorGateway.OpenPr
