import ContributorGateway.Core.OpenPrWrites
import ContributorGateway.Core.SimulatedStore

/-!
# Concurrent calls on one branch

Calls of `open_pr` on one branch share the store of GitHub, and their requests
interleave. The head of the branch, its creator, the created commits and the open pull
request never change once they are there, so what one call has learned stays true while
others go on. Every call that returns reports the one head and the one pull request,
and has the key of the call that created the branch.
-/

namespace ContributorGateway.OpenPr

section Calls

variable {ι : Type} {tables : CaseTables} {branch : String} {args : ι → Args} {alone : Prop}
  {i : ι}

/-- What growth keeps survives the other calls. -/
theorem stable_of_grows {P : Store ι → Prop} (hP : ∀ s s', P s → Grows s s' → P s') :
    (storeWorld tables branch args alone).Stable P :=
  fun s s' h hevolves _ => hP s s' h hevolves.1

/-- What the call has seen so far: the store has only grown, and while the call runs
alone, master and the branch are still the same. -/
structure Seen (alone : Prop) (before s : Store ι) : Prop where
  grows : Grows before s
  same : alone → s.master = before.master ∧ s.head = before.head

/-- What was seen survives the other calls. -/
theorem stable_seen (before : Store ι) :
    (storeWorld tables branch args alone).Stable (Seen alone before) := by
  rintro s s' ⟨hgrows, hsame⟩ ⟨hgrows', heq⟩ -
  exact ⟨hgrows.trans hgrows', fun ha => heq ha ▸ hsame ha⟩

/-- The rule of safe requests on the store: they change nothing, and what they deliver is
explained by the state in which they were answered. -/
theorem wp_get_store {accepts : Json → Bool} {request : GitHubRequest} {J : Store ι → Prop} {P : Json → Store ι → Prop}
    {trail : Trail Locals} {s : Store ι}
    (hJ : (storeWorld tables branch args alone).Stable J)
    (hP : ∀ v, (storeWorld tables branch args alone).Stable (P v))
    (hread : ∀ s s' x, J s → HeadCreated args s → Answer tables branch i s request s' x →
      s' = s ∧ ∀ v, received accepts x = some v → P v s) (hs : J s) :
    (getAttempts tables accepts false request maxAttempts).wp
      (storeWorld tables branch args alone) i (fun r trail' s' =>
        trail'.locals = trail.locals ∧ J s' ∧ ∀ v, r = .ok v → P v s') trail s := by
  refine Process.wp_mono (wp_getAttempts (N := fun _ => True) hJ hP (fun _ _ _ _ _ => trivial)
    (fun s₁ s₂ x hs₁ hgood hanswer => ?_) hs maxAttempts) ?_
  · obtain ⟨rfl, hvalue⟩ := hread s₁ s₂ x hs₁ hgood hanswer
    exact ⟨hgood, hs₁, fun v hv => hvalue v (attemptResult_eq_ok_iff.mp hv), fun _ => trivial⟩
  · rintro r trail' s' - ⟨hlocals, hJ', hr⟩
    refine ⟨hlocals, hJ', ?_⟩
    rintro v rfl
    exact hr

/-- Reading master. -/
theorem wp_baseCommit_store {before s : Store ι} {trail : Trail Locals}
    (hbranch : branch ≠ protectedBaseBranch) (hs : Seen alone before s) :
    (baseCommit tables).wp (storeWorld tables branch args alone) i
      (fun r trail' s' => trail'.locals = trail.locals ∧ Seen alone before s' ∧
        ∀ base, r = .ok base → alone → base = before.master) trail s := by
  refine Process.wp_bind (Process.wp_mono (wp_get_store (stable_seen before)
    (P := fun v _ => ∀ base, refCommit tables v = .ok base → alone → base = before.master)
    (fun v s s' h _ _ => h) (fun s₁ s₂ x hs₁ _ hanswer => ?_) hs) ?_)
  · obtain ⟨rfl, hvalue⟩ := hanswer.masterRead_spec hbranch
    refine ⟨rfl, fun v hv base hbase ha => ?_⟩
    rw [hvalue v hv, Except.ok.injEq] at hbase
    exact hbase ▸ (hs₁.same ha).1
  · rintro (e | v) trail' s' - ⟨hlocals, hseen, hvalue⟩
    · exact fun s'' hs'' hgood =>
        ⟨hlocals, stable_seen before s' s'' hseen hs'' hgood, fun _ h => by cases h⟩
    · refine Process.wp_lift.mpr fun s'' hs'' hgood => ?_
      exact ⟨hlocals, stable_seen before s' s'' hseen hs'' hgood, hvalue v rfl⟩

/-- Looking for the branch. -/
theorem wp_existingBranchHead_store {before s : Store ι} {trail : Trail Locals}
    (hbranch : branch ≠ protectedBaseBranch) (hs : Seen alone before s) :
    (existingBranchHead tables branch).wp (storeWorld tables branch args alone) i
      (fun r trail' s' => trail'.locals = trail.locals ∧ Seen alone before s' ∧
        ∀ head, r = .ok (some head) → s'.head = some head) trail s := by
  have hfound : ∀ v, (storeWorld tables branch args alone).Stable
      (fun s => ∀ head, refCommit tables v = .ok head → s.head = some head) :=
    fun v => stable_of_grows fun s s' h hgrows head hhead => (hgrows.head head (h head hhead)).1
  refine Process.wp_bind (Process.wp_recover (Process.wp_bind (Process.wp_mono
    (wp_get_store (stable_seen before) hfound (fun s₁ s₂ x _ _ hanswer => ?_) hs) ?_)))
  · obtain ⟨rfl, hvalue⟩ := hanswer.refRead_spec hbranch
    refine ⟨rfl, fun v hv head hhead => ?_⟩
    obtain ⟨sha, hsha, hread⟩ := hvalue v hv
    rw [hread, Except.ok.injEq] at hhead
    rw [hsha, hhead]
  · rintro (e | v) trail' s' - ⟨hlocals, hseen, hvalue⟩
    · intro s₁ hs₁ hgood₁
      have hseen₁ := stable_seen before s' s₁ hseen hs₁ hgood₁
      refine Process.wp_lift.mpr fun s₂ hs₂ hgood₂ => ?_
      have hseen₂ := stable_seen before s₁ s₂ hseen₁ hs₂ hgood₂
      cases hresult : absentIfNotFound e with
      | error e =>
        exact fun s₃ hs₃ hgood₃ =>
          ⟨hlocals, stable_seen before s₂ s₃ hseen₂ hs₃ hgood₃, fun _ h => by cases h⟩
      | ok found =>
        rw [absentIfNotFound_eq_ok hresult]
        refine Process.wp_pure.mpr fun s₃ hs₃ hgood₃ => ?_
        exact ⟨hlocals, stable_seen before s₂ s₃ hseen₂ hs₃ hgood₃, fun _ h => by cases h⟩
    · intro s₁ hs₁ hgood₁ s₂ hs₂ hgood₂
      refine Process.wp_lift.mpr fun s₃ hs₃ hgood₃ => ?_
      have hevolves := World.evolves_trans _ (World.evolves_trans _ hs₁ hs₂) hs₃
      refine ⟨hlocals, stable_seen before s' s₃ hseen hevolves hgood₃, fun head hr => ?_⟩
      obtain ⟨sha, hsha, hhead⟩ := map_eq_ok.mp hr
      rw [Option.some.injEq] at hhead
      subst hhead
      exact hfound v s' s₃ (hvalue v rfl) hevolves hgood₃ sha hsha

/-- Reading the key of the head. -/
theorem wp_headIdempotencyKey_store {before s : Store ι} {trail : Trail Locals} {head : String}
    (hs : Seen alone before s) (hhead : s.head = some head) :
    (headIdempotencyKey tables head).wp (storeWorld tables branch args alone) i
      (fun r trail' s' => trail'.locals = trail.locals ∧
        (Seen alone before s' ∧ s'.head = some head) ∧
        ∀ key, r = .ok key → ∃ j valid, s'.creator = some j ∧ validate (args j) = .ok valid ∧
          key = searchTrailer (callMessage (args j) valid)) trail s := by
  have hJ : (storeWorld tables branch args alone).Stable
      (fun s => Seen alone before s ∧ s.head = some head) :=
    fun s s' h hevolves hgood =>
      ⟨stable_seen before s s' h.1 hevolves hgood, (hevolves.1.head head h.2).1⟩
  have hP : ∀ v, (storeWorld tables branch args alone).Stable (fun s => s.head = some head ∧
      ∃ j valid, s.creator = some j ∧ validate (args j) = .ok valid ∧
        commitText v = .ok (callMessage (args j) valid)) := by
    refine fun v => stable_of_grows fun s s' h hgrows => ?_
    obtain ⟨hhead, j, valid, hcreator, hvalid⟩ := h
    obtain ⟨hhead', hcreator'⟩ := hgrows.head head hhead
    exact ⟨hhead', j, valid, hcreator'.trans hcreator, hvalid⟩
  refine Process.wp_bind (Process.wp_mono (wp_get_store hJ hP (fun s₁ s₂ x hs₁ hgood hanswer => ?_)
    ⟨hs, hhead⟩) ?_)
  · obtain ⟨j, valid, parent, hcreator, hvalid, hcommit⟩ := hgood head hs₁.2
    obtain ⟨rfl, hvalue⟩ := hanswer.commitRead_spec
    exact ⟨rfl, fun v hv => ⟨hs₁.2, j, valid, hcreator, hvalid, hvalue _ hcommit v hv⟩⟩
  · rintro (e | v) trail' s' - ⟨hlocals, hJ', hvalue⟩
    · exact fun s'' hs'' hgood =>
        ⟨hlocals, hJ s' s'' hJ' hs'' hgood, fun _ h => by cases h⟩
    · refine Process.wp_lift.mpr fun s'' hs'' hgood => ?_
      refine ⟨hlocals, hJ s' s'' hJ' hs'' hgood, fun key hkey => ?_⟩
      obtain ⟨-, j, valid, hcreator, hvalid, hmessage⟩ := hP v s' s'' (hvalue v rfl) hs'' hgood
      rw [hmessage] at hkey
      exact ⟨j, valid, hcreator, hvalid, (Except.ok.inj hkey).symm⟩

/-- The rule of mutating requests on the store. -/
theorem wp_send_store {request : GitHubRequest} {handled : List ℕ} {J : Store ι → Prop}
    {P : ℕ → Json → Store ι → Prop} {trail : Trail Locals} {s : Store ι}
    (hJ : (storeWorld tables branch args alone).Stable J)
    (hP : ∀ status v, (storeWorld tables branch args alone).Stable (P status v))
    (hanswer : ∀ s₁ s₂ x, J s₁ → HeadCreated args s₁ → Answer tables branch i s₁ request s₂ x →
      HeadCreated args s₂ ∧
        ∀ status v, sendResult handled x = .ok (status, v) → P status v s₂) (hs : J s) :
    (send request handled).wp (storeWorld tables branch args alone) i
      (fun r trail' s' => trail'.locals = trail.locals ∧
        ∀ value, r = .ok value → P value.1 value.2 s') trail s := by
  refine Process.wp_mono (wp_send (E := fun _ => True) (P := P) (fun _ _ _ _ _ => trivial) hP
    (fun s₁ hs₁ hgood₁ s₂ x hx => ?_)) ?_
  · obtain ⟨hgood₂, hvalue⟩ := hanswer s₁ s₂ x (hJ s s₁ hs hs₁ hgood₁) hgood₁ hx
    exact ⟨hgood₂, trivial, hvalue⟩
  · rintro r trail' s' - ⟨hlocals, hr⟩
    refine ⟨hlocals, ?_⟩
    rintro value rfl
    exact hr

/-- Requests that leave the branch alone keep its head a created commit. -/
theorem HeadCreated.of_grows {s s' : Store ι} (h : HeadCreated args s) (hgrows : Grows s s')
    (hhead : s'.head = s.head) : HeadCreated args s' := by
  intro sha hsha
  rw [hhead] at hsha
  obtain ⟨j, valid, parent, hcreator, hvalid, hcommit⟩ := h sha hsha
  exact ⟨j, valid, parent, (hgrows.head sha hsha).2.trans hcreator, hvalid,
    hgrows.commits sha _ hcommit⟩

/-- Creating the commit stores it with the base as its parent. -/
theorem wp_createCommit_store {before s : Store ι} {trail : Trail Locals} {base : String}
    {valid : ValidArgs} (hs : Seen alone before s) :
    (createCommit tables base valid.files valid.title (args i).callerIdentity
      valid.idempotencyKey).wp (storeWorld tables branch args alone) i
      (fun r trail' s' => trail'.locals = trail.locals ∧ ∀ head, r = .ok head →
        Seen alone before s' ∧ s'.commits head = some ⟨callMessage (args i) valid, base⟩)
      trail s := by
  have hseen := @stable_seen ι tables branch args alone before
  have hend : ∀ (e : Raised) (trail' : Trail Locals) (s' : Store ι),
      trail'.locals = trail.locals → (storeWorld tables branch args alone).Later
        (fun s'' => trail'.locals = trail.locals ∧ ∀ head, (.error e : Except Raised String) =
          .ok head → Seen alone before s'' ∧
            s''.commits head = some ⟨callMessage (args i) valid, base⟩) s' :=
    fun e trail' s' hlocals s'' _ _ => ⟨hlocals, fun _ h => by cases h⟩
  refine Process.wp_bind (Process.wp_mono (wp_get_store hseen (P := fun _ _ => True)
    (fun _ _ _ _ _ _ => trivial) (fun s₁ s₂ x _ _ hanswer =>
      ⟨hanswer.commitRead_spec.1, fun _ _ => trivial⟩) hs) ?_)
  rintro (e | payload) trail₁ s₁ - ⟨hlocals₁, hseen₁, -⟩
  · exact hend e trail₁ s₁ hlocals₁
  refine Process.wp_lift_bind (fun e _ => hend e trail₁ s₁ hlocals₁) fun tree _ => ?_
  refine Process.wp_lift_bind (fun e _ => hend e trail₁ s₁ hlocals₁) fun baseTree _ => ?_
  refine Process.wp_bind (Process.wp_mono (wp_send_store hseen
    (P := fun _ _ => Seen alone before) (fun _ _ => hseen) (fun s₂ s₃ x hs₂ hgood hanswer => ?_)
    hseen₁) ?_)
  · obtain rfl := hanswer.treeCreated_spec
    exact ⟨hgood, fun _ _ _ => hs₂⟩
  rintro (e | value) trail₂ s₂ - ⟨hlocals₂, hseen₂⟩
  · exact hend e trail₂ s₂ (hlocals₂.trans hlocals₁)
  have hlocals₂ := hlocals₂.trans hlocals₁
  refine Process.wp_lift_bind (fun e _ => hend e trail₂ s₂ hlocals₂) fun treeSha _ => ?_
  have hstored : ∀ (status : ℕ) (v : Json), (storeWorld tables branch args alone).Stable
      (fun s => Seen alone before s ∧ ∀ raw, requireString (v.get "sha") = .ok raw →
        s.commits (tables.lower raw) = some ⟨callMessage (args i) valid, base⟩) :=
    fun status v s s' h hevolves hgood =>
      ⟨hseen s s' h.1 hevolves hgood, fun raw hraw => hevolves.1.commits _ _ (h.2 raw hraw)⟩
  refine Process.wp_bind (Process.wp_mono (wp_send_store hseen hstored
    (fun s₃ s₄ x hs₃ hgood hanswer => ?_) (hseen₂ value rfl)) ?_)
  · obtain ⟨hmaster, hhead, -, -, -, hvalue⟩ := hanswer.commitCreated_spec
    have hgrows := hanswer.grows
    refine ⟨hgood.of_grows hgrows hhead, fun status v hsend =>
      ⟨⟨hs₃.grows.trans hgrows, fun ha => ?_⟩, fun raw hraw => hvalue status v raw hsend hraw⟩⟩
    rw [hmaster, hhead]
    exact hs₃.same ha
  rintro (e | value₃) trail₃ s₃ - ⟨hlocals₃, hvalue₃⟩
  · exact hend e trail₃ s₃ (hlocals₃.trans hlocals₂)
  have hlocals₃ := hlocals₃.trans hlocals₂
  refine Process.wp_lift_bind (fun e _ => hend e trail₃ s₃ hlocals₃) fun raw hraw => ?_
  refine Process.wp_pure.mpr fun s₄ hs₄ hgood₄ => ⟨hlocals₃, fun head hhead => ?_⟩
  cases hhead
  obtain ⟨hseen₄, hcommit⟩ := hstored value₃.1 value₃.2 s₃ s₄ (hvalue₃ value₃ rfl) hs₄ hgood₄
  exact ⟨hseen₄, hcommit raw hraw⟩

/-- Creating the branch makes the call its creator and the commit its head. -/
theorem wp_createBranch_store {before s : Store ι} {trail : Trail Locals} {head base : String}
    {valid : ValidArgs} (hvalid : validate (args i) = .ok valid)
    (hbranch : valid.branch = branch) (hs : Seen alone before s)
    (hcommit : s.commits head = some ⟨callMessage (args i) valid, base⟩) :
    (createBranch valid.branch head).wp (storeWorld tables branch args alone) i
      (fun r trail' s' => trail'.locals = trail.locals ∧ (r = .ok () →
        before.head = none ∧ s'.head = some head ∧ s'.creator = some i ∧
          s'.commits head = some ⟨callMessage (args i) valid, base⟩)) trail s := by
  have hJ : (storeWorld tables branch args alone).Stable (fun s => Seen alone before s ∧
      s.commits head = some ⟨callMessage (args i) valid, base⟩) :=
    fun s s' h hevolves hgood =>
      ⟨stable_seen before s s' h.1 hevolves hgood, hevolves.1.commits _ _ h.2⟩
  have hP : ∀ (status : ℕ) (v : Json), (storeWorld tables branch args alone).Stable
      (fun s => before.head = none ∧ s.head = some head ∧ s.creator = some i ∧
        s.commits head = some ⟨callMessage (args i) valid, base⟩) := by
    refine fun _ _ => stable_of_grows fun s s' h hgrows => ?_
    obtain ⟨hhead, hcreator⟩ := hgrows.head head h.2.1
    exact ⟨h.1, hhead, hcreator.trans h.2.2.1, hgrows.commits _ _ h.2.2.2⟩
  subst hbranch
  have hprefix : ("refs/heads/" ++ branchPrefix).toList.isPrefixOf
      ("refs/heads/" ++ valid.branch).toList = true :=
    refPrefix (validateBranch_eq_ok (validate_eq_ok hvalid).1).2.grammar
  rw [createBranch, if_neg (not_not.mpr hprefix)]
  refine Process.wp_bind (Process.wp_mono (wp_send_store hJ hP
    (fun s₁ s₂ x hs₁ hgood hanswer => ?_) ⟨hs, hcommit⟩) ?_)
  · rcases hanswer.refCreated_spec with ⟨hnone, rfl⟩ | ⟨rfl, hsend⟩
    · refine ⟨?_, fun _ _ _ => ⟨?_, rfl, rfl, hs₁.2⟩⟩
      · rintro sha hsha
        cases hsha
        exact ⟨i, valid, base, rfl, hvalid, hs₁.2⟩
      · cases hbefore : before.head with
        | none => rfl
        | some sha =>
          rw [(hs₁.1.grows.head sha hbefore).1] at hnone
          cases hnone
    · exact ⟨hgood, fun status v h => absurd h (hsend status v)⟩
  · rintro (e | value) trail' s' - ⟨hlocals, hvalue⟩
    · exact fun s'' _ _ => ⟨hlocals, fun h => by cases h⟩
    · exact Process.wp_pure.mpr fun s'' hs'' hgood =>
        ⟨hlocals, fun _ => hP value.1 value.2 s' s'' (hvalue value rfl) hs'' hgood⟩

/-- Looking for the open pull request finds the one that is stored. -/
theorem wp_findOpenPr_store {F : Store ι → Prop} {s : Store ι} {trail : Trail Locals}
    (hF : ∀ s s', F s → Grows s s' → F s') (hs : F s) :
    (findOpenPr tables branch).wp (storeWorld tables branch args alone) i
      (fun r trail' s' => trail'.locals = trail.locals ∧ F s' ∧
        ∀ pull, r = .ok (some pull) → s'.pull = some pull) trail s := by
  have hlisted : ∀ v : Json, (storeWorld tables branch args alone).Stable (fun s =>
      ∀ item rest, v = .arr (item :: rest) → ∃ number url, s.pull = some (number, url) ∧
        requireInt (item.get "number") = .ok number ∧
        requireString (item.get "html_url") = .ok url) := by
    refine fun v => stable_of_grows fun s s' h hgrows item rest hv => ?_
    obtain ⟨number, url, hpull, hread⟩ := h item rest hv
    exact ⟨number, url, hgrows.pull _ hpull, hread⟩
  have hnone : ∀ (r : Except Raised (Option (ℤ × String))) (trail' : Trail Locals) (s' : Store ι),
      (∀ pull, r ≠ .ok (some pull)) → trail'.locals = trail.locals → F s' →
      (storeWorld tables branch args alone).Later (fun s' => trail'.locals = trail.locals ∧ F s' ∧
        ∀ pull, r = .ok (some pull) → s'.pull = some pull) s' :=
    fun r trail' s' hr hlocals hs' s'' hs'' _ =>
      ⟨hlocals, hF s' s'' hs' hs''.1, fun pull h => absurd h (hr pull)⟩
  refine Process.wp_bind (Process.wp_mono (wp_get_store (stable_of_grows hF) hlisted
    (fun s₁ s₂ x _ _ hanswer => ?_) hs) ?_)
  · obtain ⟨rfl, hvalue⟩ := hanswer.pullListed_spec
    refine ⟨rfl, fun v hv item rest hlist => ?_⟩
    subst hlist
    exact hvalue item rest hv
  rintro (e | v) trail' s' - ⟨hlocals, hF', hvalue⟩
  · exact hnone _ trail' s' (fun _ h => by cases h) hlocals hF'
  have hvalue := hvalue v rfl
  split
  · cases ‹Except.ok v = _›
    split
    · rename_i item rest _
      refine Process.wp_lift_bind (fun e _ => hnone _ trail' s' (fun _ h => by cases h) hlocals hF')
        fun item' hitem => ?_
      refine Process.wp_lift_bind (fun e _ => hnone _ trail' s' (fun _ h => by cases h) hlocals hF')
        fun number hnumber => ?_
      refine Process.wp_lift_bind (fun e _ => hnone _ trail' s' (fun _ h => by cases h) hlocals hF')
        fun url hurl => ?_
      refine Process.wp_pure.mpr fun s'' hs'' _ => ⟨hlocals, hF s' s'' hF' hs''.1, fun pull h => ?_⟩
      cases h
      obtain ⟨number', url', hpull, hnumber', hurl'⟩ := hvalue item rest rfl
      obtain rfl : item' = item := (requireDict_eq_ok hitem).symm
      rw [hnumber, Except.ok.injEq] at hnumber'
      rw [hurl, Except.ok.injEq] at hurl'
      rw [hs''.1.pull _ hpull, hnumber', hurl']
    · exact Process.wp_pure.mpr (hnone _ trail' s' (fun _ h => by cases h) hlocals hF')
  · cases ‹Except.ok v = _›

/-- Opening the pull request returns the one that is stored. -/
theorem wp_openPull_store {F : Store ι → Prop} {s : Store ι} {trail : Trail Locals}
    {title text : String} (hF : ∀ s s', F s → Grows s s' → F s') (hs : F s) :
    (openPull tables branch title text).wp (storeWorld tables branch args alone) i
      (fun r trail' s' => trail'.locals = trail.locals ∧
        ∀ pull, r = .ok pull → F s' ∧ s'.pull = some pull) trail s := by
  have hP : ∀ status (v : Json), (storeWorld tables branch args alone).Stable (fun s => F s ∧
      (status ≠ 422 → ∀ number url, requireInt (v.get "number") = .ok number →
        requireString (v.get "html_url") = .ok url → s.pull = some (number, url))) :=
    fun status v => stable_of_grows fun s s' h hgrows =>
      ⟨hF s s' h.1 hgrows, fun hstatus number url hnumber hurl =>
        hgrows.pull _ (h.2 hstatus number url hnumber hurl)⟩
  have hnone : ∀ (e : Raised) (trail' : Trail Locals) (s' : Store ι),
      trail'.locals = trail.locals → (storeWorld tables branch args alone).Later
        (fun s' => trail'.locals = trail.locals ∧ ∀ pull,
          (.error e : Except Raised (ℤ × String)) = .ok pull → F s' ∧ s'.pull = some pull) s' :=
    fun e trail' s' hlocals s'' _ _ => ⟨hlocals, fun _ h => by cases h⟩
  refine Process.wp_bind (Process.wp_mono (wp_send_store (stable_of_grows hF) hP
    (fun s₁ s₂ x hs₁ hgood hanswer => ?_) hs) ?_)
  · obtain ⟨-, hhead, -, -, -, hvalue⟩ := hanswer.pullCreated_spec
    refine ⟨hgood.of_grows hanswer.grows hhead, fun status v hsend =>
      ⟨hF s₁ s₂ hs₁ hanswer.grows, fun hstatus number url hnumber hurl => ?_⟩⟩
    have hpull := hvalue status v hsend
    rw [if_neg hstatus] at hpull
    exact hpull number url hnumber hurl
  rintro (e | ⟨status, v⟩) trail' s' - ⟨hlocals, hvalue⟩
  · exact hnone e trail' s' hlocals
  obtain ⟨hF', hpull⟩ := hvalue _ rfl
  by_cases hstatus : status = 422
  · simp only [hstatus, if_true]
    refine Process.wp_bind (Process.wp_mono (wp_findOpenPr_store hF hF') ?_)
    rintro (e | found) trail₁ s₁ - ⟨hlocals₁, hF₁, hfound⟩
    · exact hnone e trail₁ s₁ (hlocals₁.trans hlocals)
    · cases found with
      | none => exact Process.wp_raise.mpr (hnone _ trail₁ s₁ (hlocals₁.trans hlocals))
      | some pull =>
        refine Process.wp_pure.mpr fun s₂ hs₂ _ => ⟨hlocals₁.trans hlocals, fun pull' h => ?_⟩
        cases h
        exact ⟨hF s₁ s₂ hF₁ hs₂.1, hs₂.1.pull _ (hfound pull rfl)⟩
  · simp only [hstatus, if_false]
    refine Process.wp_lift_bind (fun e _ => hnone e trail' s' hlocals) fun number hnumber => ?_
    refine Process.wp_lift_bind (fun e _ => hnone e trail' s' hlocals) fun url hurl => ?_
    refine Process.wp_pure.mpr fun s₁ hs₁ _ => ⟨hlocals, fun pull h => ?_⟩
    cases h
    exact ⟨hF s' s₁ hF' hs₁.1, hs₁.1.pull _ (hpull hstatus number url hnumber hurl)⟩

/-- Every call reads back the key that it writes. -/
def KeysReadBack (args : ι → Args) : Prop :=
  ∀ i valid, validate (args i) = .ok valid →
    searchTrailer (callMessage (args i) valid) = some valid.idempotencyKey

/-- What a call knows once it has its branch: the head, a creator with its own key, and
whether it is that creator. -/
structure HasBranch (args : ι → Args) (alone : Prop) (i : ι) (before : Store ι)
    (base commit : String) (isNew : Bool) (s : Store ι) : Prop where
  head : s.head = some commit
  agreed : KeysReadBack args →
    ∃ j, s.creator = some j ∧ (args j).idempotencyKey = (args i).idempotencyKey
  created : isNew = true → s.creator = some i ∧ before.head = none ∧
    ∃ message, s.commits commit = some ⟨message, base⟩
  replayed : isNew = false → alone → before.head = some commit

/-- What a call knows of its branch stays true. -/
theorem HasBranch.grows {before s s' : Store ι} {base head : String} {created : Bool}
    (h : HasBranch args alone i before base head created s) (hgrows : Grows s s') :
    HasBranch args alone i before base head created s' := by
  obtain ⟨hhead, hcreator⟩ := hgrows.head head h.head
  refine ⟨hhead, fun hkeys => ?_, fun hc => ?_, h.replayed⟩
  · obtain ⟨j, hj, hkey⟩ := h.agreed hkeys
    exact ⟨j, hcreator.trans hj, hkey⟩
  obtain ⟨hi, hbefore, message, hcommit⟩ := h.created hc
  exact ⟨hcreator.trans hi, hbefore, message, hgrows.commits _ _ hcommit⟩

/-- Creating or recognizing the branch. -/
theorem wp_ensureBranch_store {before s : Store ι} {trail : Trail Locals} {valid : ValidArgs}
    {base : String} {existing : Option String} (hvalid : validate (args i) = .ok valid)
    (hbranch : valid.branch = branch) (hs : Seen alone before s) (hexisting : ∀ head, existing = some head → s.head = some head) :
    (ensureBranch tables valid (args i).callerIdentity base existing).wp
      (storeWorld tables branch args alone) i (fun r trail' s' =>
        trail'.locals.baseCommit = trail.locals.baseCommit ∧
          ∀ head created, r = .ok (head, created) →
            HasBranch args alone i before base head created s') trail s := by
  have hnone : ∀ (e : Raised) (trail' : Trail Locals) (s' : Store ι),
      trail'.locals.baseCommit = trail.locals.baseCommit →
      (storeWorld tables branch args alone).Later (fun s' =>
        trail'.locals.baseCommit = trail.locals.baseCommit ∧ ∀ head created,
          (.error e : Except Raised (String × Bool)) = .ok (head, created) →
            HasBranch args alone i before base head created s') s' :=
    fun e trail' s' hlocals s'' _ _ => ⟨hlocals, fun _ _ h => by cases h⟩
  cases existing with
  | some head =>
    refine Process.wp_bind (Process.wp_mono
      (wp_headIdempotencyKey_store hs (hexisting head rfl)) ?_)
    rintro (e | key) trail₁ s₁ - ⟨hlocals₁, ⟨hseen₁, hhead₁⟩, hkey⟩
    · exact hnone e trail₁ s₁ (by rw [hlocals₁])
    obtain ⟨j, valid', hcreator, hvalid', hread⟩ := hkey key rfl
    by_cases hsame : key = some valid.idempotencyKey
    · simp only [hsame, ne_eq, not_true_eq_false, if_false]
      refine Process.wp_assign_bind (Process.wp_pure.mpr fun s₂ hs₂ hgood₂ => ?_)
      refine ⟨by rw [hlocals₁], fun head' created h => ?_⟩
      cases h
      have hargsKey := (checkedStr_eq_ok (validate_eq_ok hvalid).2.2.2.2.1).1
      have hargsKey' := (checkedStr_eq_ok (validate_eq_ok hvalid').2.2.2.2.1).1
      obtain ⟨hhead₂, hcreator₂⟩ := hs₂.1.head head hhead₁
      exact
        { head := hhead₂
          agreed := fun hkeys => by
            rw [hkeys j valid' hvalid', hsame, Option.some.injEq] at hread
            exact ⟨j, hcreator₂.trans hcreator, by rw [hargsKey, hargsKey', hread]⟩
          created := fun h => by cases h
          replayed := fun _ ha => (hseen₁.same ha).2 ▸ hhead₁ }
    · simp only [hsame, ne_eq, not_false_eq_true, if_true]
      exact Process.wp_raise.mpr (hnone _ trail₁ s₁ (by rw [hlocals₁]))
  | none =>
    rw [ensureBranch]
    split
    · exact Process.wp_raise.mpr (hnone _ trail s rfl)
    refine Process.wp_bind (Process.wp_mono (wp_createCommit_store hs) ?_)
    rintro (e | head) trail₁ s₁ - ⟨hlocals₁, hcommit⟩
    · exact hnone e trail₁ s₁ (by rw [hlocals₁])
    obtain ⟨hseen₁, hstored⟩ := hcommit head rfl
    refine Process.wp_assign_bind (Process.wp_bind (Process.wp_mono
      (wp_createBranch_store hvalid hbranch hseen₁ hstored) ?_))
    rintro (e | _) trail₂ s₂ - ⟨hlocals₂, hcreated⟩
    · exact hnone e trail₂ s₂ (by rw [hlocals₂, hlocals₁])
    obtain ⟨hbefore, hhead₂, hcreator₂, hcommit₂⟩ := hcreated rfl
    refine Process.wp_pure.mpr fun s₃ hs₃ _ => ⟨by rw [hlocals₂, hlocals₁], fun _ _ h => ?_⟩
    cases h
    have hhas : HasBranch args alone i before base head true s₂ :=
      { head := hhead₂
        agreed := fun _ => ⟨i, hcreator₂, rfl⟩
        created := fun _ => ⟨hcreator₂, hbefore, _, hcommit₂⟩
        replayed := fun h => by cases h }
    exact hhas.grows hs₃.1

/-- What is true of a call that returned. -/
structure Answered (args : ι → Args) (alone : Prop) (i : ι) (before : Store ι)
    (opened : OpenedPr) (s : Store ι) : Prop where
  hasBranch : HasBranch args alone i before opened.baseCommit opened.headCommit
    opened.createdBranch s
  pull : s.pull = some (opened.prNumber, opened.prUrl)
  base : alone → opened.baseCommit = before.master
  branch : (args i).branch = .str opened.branch
  replayed : opened.replayed = !opened.createdBranch

/-- A call that returns is right about the store, and audits its base. -/
theorem wp_body_store (hbranch : ∀ j, (args j).branch = .str branch) (before : Store ι)
    (trail : Trail Locals) :
    (body tables (args i)).wp (storeWorld tables branch args alone) i (fun r trail' s' =>
      ∀ opened, r = .ok opened → Answered args alone i before opened s' ∧
        trail'.locals.baseCommit = some opened.baseCommit) trail before := by
  have hnone : ∀ (e : Raised) (trail' : Trail Locals) (s' : Store ι),
      (storeWorld tables branch args alone).Later (fun s' => ∀ opened,
        (.error e : Except Raised OpenedPr) = .ok opened →
          Answered args alone i before opened s' ∧
            trail'.locals.baseCommit = some opened.baseCommit) s' :=
    fun e trail' s' s'' _ _ _ h => by cases h
  refine Process.wp_lift_bind (fun e _ => hnone e _ _) fun valid hvalid => ?_
  refine Process.wp_assign_bind ?_
  refine Process.wp_lift_bind (fun e _ => hnone e _ _) fun _ _ => ?_
  obtain ⟨hargs, hcontrib⟩ := validateBranch_eq_ok (validate_eq_ok hvalid).1
  have hvalidBranch : valid.branch = branch := by
    rw [hbranch i] at hargs
    exact (PyValue.str.inj hargs).symm
  have hmaster : branch ≠ protectedBaseBranch := hvalidBranch ▸ hcontrib.notMaster
  refine Process.wp_bind (Process.wp_mono (wp_baseCommit_store hmaster
    ⟨Grows.refl before, fun _ => ⟨rfl, rfl⟩⟩) ?_)
  rintro (e | base) trail₁ s₁ - ⟨hlocals₁, hseen₁, hbase⟩
  · exact hnone e trail₁ s₁
  refine Process.wp_assign_bind (Process.wp_bind ?_)
  rw [hvalidBranch]
  refine Process.wp_mono (wp_existingBranchHead_store hmaster hseen₁) ?_
  rintro (e | existing) trail₂ s₂ - ⟨hlocals₂, hseen₂, hexisting⟩
  · exact hnone e trail₂ s₂
  refine Process.wp_bind (Process.wp_mono (wp_ensureBranch_store hvalid hvalidBranch hseen₂
    fun head hhead => hexisting head (by rw [hhead])) ?_)
  rintro (e | ⟨head, created⟩) trail₃ s₃ - ⟨hlocals₃, hhas⟩
  · exact hnone e trail₃ s₃
  dsimp only
  rw [hvalidBranch]
  refine Process.wp_bind (Process.wp_mono (wp_openPull_store
    (fun s s' h hgrows => HasBranch.grows h hgrows) (hhas head created rfl)) ?_)
  rintro (e | pull) trail₄ s₄ - ⟨hlocals₄, hpull⟩
  · exact hnone e trail₄ s₄
  obtain ⟨hhas₄, hpull₄⟩ := hpull pull rfl
  refine Process.wp_pure.mpr fun s₅ hs₅ _ opened h => ?_
  cases h
  refine ⟨⟨hhas₄.grows hs₅.1, hs₅.1.pull _ hpull₄, hbase base rfl, hbranch i, rfl⟩, ?_⟩
  rw [hlocals₄, hlocals₃, hlocals₂]

/-- The result of a call is what its procedure returned, when the audit record was
written. -/
theorem conclude_eq_ok {a : Args} {io : Option AppendIo} {result : Except Raised OpenedPr}
    {trail : Trail Locals} {opened : OpenedPr}
    (h : (conclude a io result trail).result = .ok opened) : result = .ok opened := by
  unfold conclude at h
  dsimp only at h
  split at h
  · cases result with
    | error e => cases h
    | ok opened' => exact congrArg Except.ok (Except.ok.inj h)
  · cases h

/-- The audit record shows the base of the trail. -/
theorem conclude_base (a : Args) (io : Option AppendIo) (result : Except Raised OpenedPr)
    (trail : Trail Locals) :
    (conclude a io result trail).record.get "base_commit" =
      some (optStr trail.locals.baseCommit) := by
  unfold conclude
  dsimp only
  split <;> rfl

/-- A whole call: what it returns is right about the store, and its base is audited. -/
theorem wp_openPr_store (hbranch : ∀ j, (args j).branch = .str branch) (io : Option AppendIo)
    (before : Store ι) :
    (openPr tables (args i) io).wp (storeWorld tables branch args alone) i (fun a s' =>
      ∀ opened, a.result = .ok opened → Answered args alone i before opened s' ∧
        a.record.get "base_commit" = some (.str opened.baseCommit)) before := by
  refine Program.wp_bind (Program.wp_mono (wp_body_store hbranch before ⟨[], {}⟩) ?_)
  rintro r s' - h s'' hs'' _ opened hopened
  obtain ⟨hanswered, hbase⟩ := h opened (conclude_eq_ok hopened)
  refine ⟨?_, by rw [conclude_base, hbase]; rfl⟩
  exact { hanswered with
    hasBranch := hanswered.hasBranch.grows hs''.1
    pull := hs''.1.pull _ hanswered.pull }

end Calls

/-! ## Interleaved calls -/

section Interleaved

variable {ι : Type}

/-- Nobody but the calls writes the branch or the pull request; master may move. -/
def MasterMoves (s s' : Store ι) : Prop := ∃ master, s' = { s with master }

/-- A call of the system has returned. -/
def Returned (c : System GitHubRequest Reply (Store ι) ι Outcome) (i : ι) (opened : OpenedPr) :
    Prop :=
  ∃ a, c.programs i = .done a ∧ a.result = .ok opened

/-- The calls before their first request. -/
def callsAt (tables : CaseTables) (args : ι → Args) (io : ι → Option AppendIo)
    (start : Store ι) : System GitHubRequest Reply (Store ι) ι Outcome :=
  ⟨start, fun i => openPr tables (args i) (io i)⟩

/-- The calls interleave their requests, and master moves. -/
def Interleaves [DecidableEq ι] (tables : CaseTables) (branch : String) (args : ι → Args)
    (c c' : System GitHubRequest Reply (Store ι) ι Outcome) : Prop :=
  Relation.ReflTransGen (System.Step (storeWorld tables branch args False) MasterMoves) c c'

/-- Moving master is growth. -/
theorem MasterMoves.grows {s s' : Store ι} (h : MasterMoves s s') : Grows s s' := by
  obtain ⟨master, rfl⟩ := h
  exact ⟨fun _ h => ⟨h, rfl⟩, fun _ _ h => h, fun _ h => h⟩

variable [DecidableEq ι]

/-- Interleaved calls only make the store grow. -/
theorem Interleaves.grows {tables : CaseTables} {branch : String} {args : ι → Args}
    {c c' : System GitHubRequest Reply (Store ι) ι Outcome}
    (h : Interleaves tables branch args c c') : Grows c.state c'.state := by
  induction h with
  | refl => exact Grows.refl _
  | tail _ hstep ih =>
    cases hstep with
    | request _ hanswer => exact ih.trans (Answer.grows hanswer)
    | drift hdrift => exact ih.trans hdrift.grows

/-- A call that nobody interrupts is one way to interleave. -/
theorem Interleaves.of_executes {tables : CaseTables} {branch : String} {args : ι → Args} {i : ι}
    {s s' : Store ι} {p : Program GitHubRequest Reply Outcome} {a : Outcome}
    (hexec : Program.Executes (storeWorld tables branch args False) i s p s' a)
    (programs : ι → Program GitHubRequest Reply Outcome) (hprogram : programs i = p) :
    Interleaves tables branch args ⟨s, programs⟩ ⟨s', Function.update programs i (.done a)⟩ :=
  System.steps_of_executes hexec programs hprogram

/-- Interleavings follow one another. -/
theorem Interleaves.trans {tables : CaseTables} {branch : String} {args : ι → Args}
    {c c' c'' : System GitHubRequest Reply (Store ι) ι Outcome}
    (h : Interleaves tables branch args c c') (h' : Interleaves tables branch args c' c'') :
    Interleaves tables branch args c c'' :=
  Relation.ReflTransGen.trans h h'

/-- **Agreement.** Any number of calls with arbitrary keys work on one branch that does
not exist at the start. However their requests interleave and whatever is lost: the
branch gets one head, a commit of the call that created it, and keeps it; one call at
most reports to have created it; every call that returns has the key of that call and
reports that head; and all of them report one pull request. -/
theorem open_pr_agreement (tables : CaseTables) (branch : String) (args : ι → Args)
    (io : ι → Option AppendIo) (start : Store ι) (hnew : start.head = none)
    (hbranch : ∀ i, (args i).branch = .str branch) (hkeys : KeysReadBack args)
    {c c' : System GitHubRequest Reply (Store ι) ι Outcome}
    (hrun : Interleaves tables branch args (callsAt tables args io start) c)
    (hrest : Interleaves tables branch args c c') :
    (∀ head, c.state.head = some head → c'.state.head = some head ∧
      ∃ i valid parent, c.state.creator = some i ∧ c'.state.creator = some i ∧
        validate (args i) = .ok valid ∧
        c.state.commits head = some ⟨callMessage (args i) valid, parent⟩) ∧
    (∀ i j opened opened', Returned c i opened → Returned c j opened' →
      opened.createdBranch = true → opened'.createdBranch = true → i = j) ∧
    (∀ i opened, Returned c i opened → c.state.head = some opened.headCommit ∧
      ∃ j, c.state.creator = some j ∧ (args j).idempotencyKey = (args i).idempotencyKey) ∧
    ∀ i j opened opened', Returned c i opened → Returned c j opened' →
      opened.prNumber = opened'.prNumber := by
  have hsound : (callsAt tables args io start).Sound (storeWorld tables branch args False)
      (fun i a s' => ∀ opened, a.result = .ok opened →
        Answered args False i start opened s' ∧
          a.record.get "base_commit" = some (.str opened.baseCommit)) := by
    refine ⟨fun sha hsha => ?_, fun i => wp_openPr_store hbranch (io i) start⟩
    rw [callsAt, hnew] at hsha
    cases hsha
  obtain ⟨hgood, hdone⟩ := hsound.reachable hrun (fun i s r s' x h => ⟨h.grows, False.elim⟩)
    (fun s s' hgood h => ⟨⟨h.grows, False.elim⟩, by
      obtain ⟨master, rfl⟩ := h
      exact hgood⟩)
  have hanswered : ∀ i opened, Returned c i opened → Answered args False i start opened c.state :=
    fun i opened ⟨a, hprogram, hresult⟩ => (hdone i a hprogram opened hresult).1
  refine ⟨fun head hhead => ?_, fun i j opened opened' hi hj hc hc' => ?_,
    fun i opened hi => ?_, fun i j opened opened' hi hj => ?_⟩
  · obtain ⟨hhead', hcreator'⟩ := hrest.grows.head head hhead
    obtain ⟨i, valid, parent, hcreator, hvalid, hcommit⟩ := hgood head hhead
    exact ⟨hhead', i, valid, parent, hcreator, hcreator'.trans hcreator, hvalid, hcommit⟩
  · have hcreator := ((hanswered i opened hi).hasBranch.created hc).1
    have hcreator' := ((hanswered j opened' hj).hasBranch.created hc').1
    exact Option.some.inj (hcreator.symm.trans hcreator')
  · exact ⟨(hanswered i opened hi).hasBranch.head, (hanswered i opened hi).hasBranch.agreed hkeys⟩
  · have hpull := (hanswered i opened hi).pull
    rw [(hanswered j opened' hj).pull, Option.some.injEq, Prod.mk.injEq] at hpull
    exact hpull.1.symm

/-- The key of the sample call is read back. -/
theorem notes_keysReadBack : KeysReadBack fun _ : Bool => notesArgs := by
  intro i valid hvalid
  have hnotes : validate notesArgs = .ok ⟨"contrib/notes", "Add lift notes", "",
      [⟨"notes.md", "lift"⟩], "session-1", none⟩ := rfl
  rw [hnotes] at hvalid
  cases hvalid
  change searchTrailer (callMessage notesArgs _) = _
  decide +kernel

/-- Two parties make the same call, one after the other: both return the one pull
request. -/
theorem open_pr_agreement_twice :
    ∃ opened opened', (callNotes true newStore).2.result = .ok opened ∧
      (callNotes false (callNotes true newStore).1).2.result = .ok opened' ∧
      opened.prNumber = opened'.prNumber := by
  have hreturned : (callNotes true newStore).2.result.isOk = true ∧
      (callNotes false (callNotes true newStore).1).2.result.isOk = true := by decide +kernel
  cases hfirst : (callNotes true newStore).2.result with
  | error e =>
    rw [hfirst] at hreturned
    cases hreturned.1
  | ok opened =>
    cases hsecond : (callNotes false (callNotes true newStore).1).2.result with
    | error e =>
      rw [hsecond] at hreturned
      cases hreturned.2
    | ok opened' =>
      refine ⟨opened, opened', rfl, rfl, ?_⟩
      have hrun : Interleaves asciiTables "contrib/notes" (fun _ => notesArgs)
          (callsAt asciiTables (fun _ => notesArgs) (fun _ => some .reliable) newStore) _ :=
        (Interleaves.of_executes (callNotes_executes False true newStore) _ rfl).trans
          (.of_executes (callNotes_executes False false (callNotes true newStore).1) _ rfl)
      refine (open_pr_agreement asciiTables "contrib/notes" (fun _ => notesArgs)
        (fun _ => some .reliable) newStore rfl (fun _ => rfl) notes_keysReadBack hrun
        .refl).2.2.2 true false opened opened' ?_ ?_
      · exact ⟨_, rfl, hfirst⟩
      · exact ⟨_, rfl, hsecond⟩

end Interleaved

end ContributorGateway.OpenPr
