import ContributorGateway.Foundation.JsonIndent
import ContributorGateway.Foundation.TextLines
import Mathlib.Algebra.BigOperators.Group.List.Basic

/-!
# The client registry

`ClientRegistry` keeps the registered clients in memory and in one private JSON file. It
refuses to hold more than a thousand clients, and to read a file of more than a mebibyte.
-/

namespace ContributorGateway.ClientRegistry

open Json

/-- `MAX_REGISTERED_CLIENTS`. -/
def maxRegisteredClients : ℕ := 1000

/-- `MAX_CLIENT_REGISTRY_BYTES`. -/
def maxClientRegistryBytes : ℕ := 1024 * 1024

/-- What the registry uses of `OAuthClientInformationFull`: the client id,
`model_dump(mode="json", exclude_none=True)` and `model_validate`, which may raise. -/
structure ClientModel (Client : Type) where
  clientId : Client → Option String
  dump : Client → Json
  validate : Json → Option Client

/-- What a directory entry is, as `os.open` with `O_NOFOLLOW` and `fstat` tell it. -/
inductive FileKind where
  | regular
  | link
  | special
  deriving DecidableEq

/-- The file of a registry. -/
structure PrivateFile where
  kind : FileKind
  mode : ℕ
  data : List UInt8

/-- `ClientRegistry`: the clients in the order of the dictionary, and the file. -/
structure Registry (Client : Type) where
  clients : List (String × Client)
  file : Option PrivateFile

/-- The exceptions of `put`. -/
inductive PutError where
  | valueError (message : String)
  | registrationError (error description : String)
  deriving DecidableEq

variable {Client : Type}

/-- `clients[client_id] = client`. -/
def setItem (key : String) (value : Client) : List (String × Client) → List (String × Client)
  | [] => [(key, value)]
  | item :: rest =>
      if item.1 = key then (key, value) :: rest else item :: setItem key value rest

/-- `get`. -/
def Registry.get (r : Registry Client) (clientId : String) : Option Client :=
  r.clients.lookup clientId

/-- `_write_private_file`. -/
def writePrivateFile (data : List UInt8) : PrivateFile := ⟨.regular, 0o600, data⟩

/-- `_read_private_registry`. -/
def readPrivateRegistry (file : PrivateFile) : Except String (List UInt8) :=
  if file.kind = .link then
    .error "device OAuth client registry cannot be opened safely"
  else if file.kind ≠ .regular then
    .error "device OAuth client registry must be a regular file"
  else if file.mode ≠ 0o600 then
    .error "device OAuth client registry must have mode 0600"
  else
    let value := file.data.take (maxClientRegistryBytes + 1)
    if maxClientRegistryBytes < value.length then
      .error "device OAuth client registry is too large"
    else .ok value

/-- `json.loads` on bytes that it takes for UTF-8, as those that begin with two ASCII
characters. -/
def loadsBytes (data : List UInt8) : Option Json := (utf8Decode data).bind loads

namespace ClientModel

variable (m : ClientModel Client)

/-- `payload`. -/
def payload (clients : List (String × Client)) : Json :=
  .obj (clients.map fun item => (item.1, m.dump item.2))

/-- `put`. -/
def put (r : Registry Client) (client : Client) : Except PutError (Registry Client) :=
  match m.clientId client with
  | none => .error (.valueError "client_id is required for client registration")
  | some clientId =>
      if r.get clientId = none ∧ maxRegisteredClients ≤ r.clients.length then
        .error (.registrationError "invalid_client_metadata"
          "device client registry capacity reached")
      else
        let clients := setItem clientId client r.clients
        .ok ⟨clients, some (writePrivateFile (utf8Encode (dumpsIndent 0 (m.payload clients))))⟩

/-- `__init__`. -/
def construct (file : Option PrivateFile) : Except String (Registry Client) :=
  match file with
  | none => .ok ⟨[], none⟩
  | some file =>
      match readPrivateRegistry file with
      | .error message => .error message
      | .ok raw =>
          match loadsBytes raw with
          | none => .error "device OAuth client registry is malformed"
          | some (.obj document) =>
              if maxRegisteredClients < document.length then
                .error "device OAuth client registry is malformed or too large"
              else
                match document.mapM fun item => (m.validate item.2).map (item.1, ·) with
                | none => .error "device OAuth client registry is malformed"
                | some clients =>
                    if clients.length ≠ document.length then
                      .error "device OAuth client registry has an invalid client ID"
                    else .ok ⟨clients, some file⟩
          | some _ => .error "device OAuth client registry is malformed or too large"

/-- The registry after calls of `put`, each of which returns or raises. -/
def run (puts : List Client) : Registry Client :=
  puts.foldl (fun r client => (m.put r client).toOption.getD r) ⟨[], none⟩

end ClientModel

/-! ## The dictionary -/

/-- The keys of a dictionary after an assignment. -/
theorem keys_setItem (key : String) (value : Client) (clients : List (String × Client)) :
    (key ∈ clients.map Prod.fst →
      (setItem key value clients).map Prod.fst = clients.map Prod.fst) ∧
    (key ∉ clients.map Prod.fst →
      (setItem key value clients).map Prod.fst = clients.map Prod.fst ++ [key]) := by
  induction clients with
  | nil => simp [setItem]
  | cons item rest ih =>
    by_cases hkey : item.1 = key
    · simp [setItem, hkey]
    · have hne : ¬ key = item.1 := fun h => hkey h.symm
      rw [setItem, if_neg hkey, List.map_cons, List.map_cons]
      refine ⟨fun hmem => ?_, fun hmem => ?_⟩
      · rw [ih.1 ((List.mem_cons.mp hmem).resolve_left hne)]
      · rw [ih.2 fun h => hmem (List.mem_cons_of_mem _ h), List.cons_append]

/-- A key is in a dictionary when something is found under it. -/
theorem lookup_eq_none_iff (key : String) (clients : List (String × Client)) :
    clients.lookup key = none ↔ key ∉ clients.map Prod.fst := by
  rw [List.lookup_eq_none_iff]
  simp only [List.mem_map, not_exists, not_and, bne_iff_ne]
  constructor
  · rintro h item hitem rfl
    exact h item hitem rfl
  · rintro h item hitem rfl
    exact h item hitem rfl

/-- The dictionary of a registry: its keys are distinct and at most a thousand. -/
structure Registry.Bounded (r : Registry Client) : Prop where
  nodup : (r.clients.map Prod.fst).Nodup
  length_le : r.clients.length ≤ maxRegisteredClients

variable {m : ClientModel Client}

/-- What a `put` that returned has done. -/
theorem put_eq_ok {r r' : Registry Client} {client : Client} (h : m.put r client = .ok r') :
    ∃ clientId, m.clientId client = some clientId ∧
      ¬ (r.get clientId = none ∧ maxRegisteredClients ≤ r.clients.length) ∧
      r'.clients = setItem clientId client r.clients ∧
      r'.file = some (writePrivateFile (utf8Encode (dumpsIndent 0 (m.payload r'.clients)))) := by
  unfold ClientModel.put at h
  cases hid : m.clientId client with
  | none => simp [hid] at h
  | some clientId =>
    simp only [hid] at h
    split_ifs at h with hfull
    obtain rfl := Except.ok.inj h
    exact ⟨clientId, rfl, hfull, rfl, rfl⟩

/-- A `put` for which there is room returns. -/
theorem put_of_room {r : Registry Client} {client : Client} {clientId : String}
    (hid : m.clientId client = some clientId)
    (hroom : ¬ (r.get clientId = none ∧ maxRegisteredClients ≤ r.clients.length)) :
    m.put r client = .ok ⟨setItem clientId client r.clients, some (writePrivateFile
      (utf8Encode (dumpsIndent 0 (m.payload (setItem clientId client r.clients)))))⟩ := by
  simp only [ClientModel.put, hid, if_neg hroom]

/-- A `put` keeps the bounds. -/
theorem Registry.Bounded.put {r r' : Registry Client} {client : Client} (h : r.Bounded)
    (hput : m.put r client = .ok r') : r'.Bounded := by
  obtain ⟨clientId, -, hroom, hclients, -⟩ := put_eq_ok hput
  have hlength : r'.clients.length = ((setItem clientId client r.clients).map Prod.fst).length := by
    rw [hclients, List.length_map]
  by_cases hmem : clientId ∈ r.clients.map Prod.fst
  · have hkeys := (keys_setItem clientId client r.clients).1 hmem
    refine ⟨?_, ?_⟩
    · rw [hclients, hkeys]
      exact h.nodup
    · rw [hlength, hkeys, List.length_map]
      exact h.length_le
  · have hkeys := (keys_setItem clientId client r.clients).2 hmem
    refine ⟨?_, ?_⟩
    · rw [hclients, hkeys, List.nodup_append_comm, List.singleton_append, List.nodup_cons]
      exact ⟨hmem, h.nodup⟩
    · have hnone : r.get clientId = none := (lookup_eq_none_iff ..).mpr hmem
      rw [hlength, hkeys, List.length_append, List.length_map, List.length_singleton]
      exact Nat.lt_of_not_le fun hfull => hroom ⟨hnone, hfull⟩

/-- Every run keeps the bounds. -/
theorem bounded_run (m : ClientModel Client) (puts : List Client) : (m.run puts).Bounded := by
  have hfold (r : Registry Client) (h : r.Bounded) :
      (puts.foldl (fun r client => (m.put r client).toOption.getD r) r).Bounded := by
    induction puts generalizing r with
    | nil => exact h
    | cons client puts ih =>
      refine ih _ ?_
      cases hput : m.put r client with
      | error e => simpa [hput, Except.toOption] using h
      | ok r' => simpa [hput, Except.toOption] using h.put hput
  exact hfold _ ⟨by simp, by simp⟩

/-! ## The size of the file -/

/-- The bytes of a text. -/
def byteLength (text : List Char) : ℕ := (utf8Encode text).length

@[simp] theorem byteLength_append (text text' : List Char) :
    byteLength (text ++ text') = byteLength text + byteLength text' := by
  simp [byteLength, utf8Encode]

/-- A byte for an ASCII character. -/
theorem byteLength_cons {c : Char} (hc : c.toNat ≤ 0x7f) (text : List Char) :
    byteLength (c :: text) = 1 + byteLength text := by
  rw [byteLength, utf8Encode, List.flatMap_cons, utf8EncodeChar_ascii hc, List.length_append]
  rfl

/-- The bytes of texts joined with commas. -/
theorem byteLength_joinComma {texts : List (List Char)} (hne : texts ≠ []) :
    byteLength (joinComma texts) + 1 = (texts.map fun text => byteLength text + 1).sum := by
  induction texts with
  | nil => exact absurd rfl hne
  | cons text texts ih =>
    cases texts with
    | nil => simp [joinComma]
    | cons next texts =>
      have hrest := ih (by simp)
      rw [joinComma, byteLength_append, byteLength_cons (by decide), List.map_cons, List.sum_cons,
        ← hrest]
      omega

/-- The size of the file for some clients: the braces with the last line break, and a line
with its comma or line break for every client. -/
def registrySize (m : ClientModel Client) (clients : List (String × Client)) : ℕ :=
  2 + (clients.map fun item =>
    6 + byteLength (dumpsStr item.1) + byteLength (dumpsIndent 1 (m.dump item.2))).sum

/-- The bytes of the line of a client. -/
theorem byteLength_memberLine (item : String × Json) :
    byteLength (memberLine 1 item) + 1 =
      6 + byteLength (dumpsStr item.1) + byteLength (dumpsIndent 1 item.2) := by
  have hnewline : byteLength (newline 1) = 3 := by decide
  rw [memberLine, memberText, byteLength_append, byteLength_append, hnewline,
    byteLength_cons (by decide), byteLength_cons (by decide)]
  dsimp only
  omega

/-- The file takes as many bytes as the clients tell. -/
theorem byteLength_payload (m : ClientModel Client) {clients : List (String × Client)}
    (hne : clients ≠ []) :
    byteLength (dumpsIndent 0 (m.payload clients)) = registrySize m clients := by
  have hmembers : clients.map (fun item => (item.1, m.dump item.2)) ≠ [] := by simpa using hne
  have hperm := sortByKey_perm (clients.map fun item => (item.1, m.dump item.2))
  have hsorted : (sortByKey (clients.map fun item => (item.1, m.dump item.2))).map
      (memberLine 1) ≠ [] := by
    intro h
    rw [List.map_eq_nil_iff] at h
    rw [h] at hperm
    exact hmembers hperm.nil_eq.symm
  have hlines := byteLength_joinComma hsorted
  rw [((hperm.map (memberLine 1)).map fun text => byteLength text + 1).sum_eq, List.map_map,
    List.map_map] at hlines
  have hsum : (clients.map (((fun text => byteLength text + 1) ∘ memberLine 1) ∘
      fun item => (item.1, m.dump item.2))).sum = (clients.map fun item =>
        6 + byteLength (dumpsStr item.1) + byteLength (dumpsIndent 1 (m.dump item.2))).sum := by
    congr 1
    exact List.map_congr_left fun item _ => byteLength_memberLine (item.1, m.dump item.2)
  have hnewline : byteLength (newline 0 ++ ['}']) = 2 := by decide
  rw [ClientModel.payload, dumpsIndent_obj 0 hmembers, byteLength_cons (by decide),
    List.append_assoc, byteLength_append, hnewline, registrySize, ← hsum, ← hlines, Nat.zero_add]
  omega

/-! ## Restart -/

/-- A text that is too large cannot be read from its file. -/
theorem construct_of_large {text : List Char} (hlarge : maxClientRegistryBytes < byteLength text) :
    m.construct (some (writePrivateFile (utf8Encode text))) =
      .error "device OAuth client registry is too large" := by
  have htake : maxClientRegistryBytes <
      ((utf8Encode text).take (maxClientRegistryBytes + 1)).length := by
    rw [byteLength] at hlarge
    rw [List.length_take]
    omega
  have hread : readPrivateRegistry (writePrivateFile (utf8Encode text)) =
      .error "device OAuth client registry is too large" := by
    simp [readPrivateRegistry, writePrivateFile, -List.length_take, htake]
  rw [ClientModel.construct, hread]

/-- A text within the limit is read whole from its file. -/
theorem readPrivateRegistry_of_small {text : List Char}
    (hsmall : byteLength text ≤ maxClientRegistryBytes) :
    readPrivateRegistry (writePrivateFile (utf8Encode text)) = .ok (utf8Encode text) := by
  have hle : ¬ maxClientRegistryBytes < (utf8Encode text).length := by
    rw [byteLength] at hsmall
    omega
  have htake : (utf8Encode text).take (maxClientRegistryBytes + 1) = utf8Encode text :=
    List.take_of_length_le (by omega)
  simp only [readPrivateRegistry, writePrivateFile, htake, hle, reduceCtorEq, if_false, ne_eq,
    not_true_eq_false]

section RoundTrip

variable (hdump : ∀ c, WellFormed (m.dump c))
  (hround : ∀ c, m.validate (canonical (m.dump c)) = some c)

include hdump in
/-- The payload is a value that is read back. -/
theorem wellFormed_payload {clients : List (String × Client)}
    (hkeys : (clients.map Prod.fst).Nodup) : WellFormed (m.payload clients) := by
  refine .obj ?_ ?_
  · rw [List.map_map]
    exact hkeys
  · intro item hitem
    obtain ⟨c, -, rfl⟩ := List.mem_map.mp hitem
    exact hdump c.2

include hround in
/-- The members of the payload are validated to the clients, in key order. -/
theorem mapM_validate (clients : List (String × Client)) :
    (clients.map fun item => (item.1, canonical (m.dump item.2))).mapM
      (fun item => (m.validate item.2).map (item.1, ·)) = some clients := by
  induction clients with
  | nil => rfl
  | cons item rest ih => simp [List.mapM_cons, hround, ih]

include hdump hround in
/-- A file within the limit gives the clients back, in key order. -/
theorem construct_of_small {r : Registry Client} (hbounded : r.Bounded)
    (hsmall : byteLength (dumpsIndent 0 (m.payload r.clients)) ≤ maxClientRegistryBytes) :
    m.construct (some (writePrivateFile (utf8Encode (dumpsIndent 0 (m.payload r.clients))))) =
      .ok ⟨sortByKey r.clients,
        some (writePrivateFile (utf8Encode (dumpsIndent 0 (m.payload r.clients))))⟩ := by
  have hread := readPrivateRegistry_of_small hsmall
  have hloads : loadsBytes (utf8Encode (dumpsIndent 0 (m.payload r.clients))) =
      some (.obj ((sortByKey r.clients).map fun item => (item.1, canonical (m.dump item.2)))) := by
    rw [loadsBytes, utf8Decode_utf8Encode, Option.bind_some,
      loads_dumpsIndent (wellFormed_payload hdump hbounded.nodup), ClientModel.payload, canonical,
      canonicalMembers_eq_map, List.map_map, ← sortByKey_map fun c => canonical (m.dump c)]
    rfl
  have hlength : ((sortByKey r.clients).map fun item =>
      (item.1, canonical (m.dump item.2))).length = r.clients.length := by
    rw [List.length_map, (sortByKey_perm r.clients).length_eq]
  have hfew : ¬ maxRegisteredClients < r.clients.length := by
    have := hbounded.length_le
    omega
  rw [ClientModel.construct, hread]
  simp only [writePrivateFile, hloads, hlength, hfew, if_false, mapM_validate hround,
    (sortByKey_perm r.clients).length_eq, ne_eq, not_true_eq_false]

end RoundTrip

/-- After a `put` that returned, a registry constructed from the file agrees with the
running one exactly when the records of the registered clients, the new one included, fit
into the size that is read. -/
theorem restart_agrees_iff {m : ClientModel Client} (hdump : ∀ c, WellFormed (m.dump c))
    (hround : ∀ c, m.validate (canonical (m.dump c)) = some c) (puts : List Client)
    {client : Client} {clientId : String} (hid : m.clientId client = some clientId)
    {r : Registry Client} (hput : m.put (m.run puts) client = .ok r) :
    (∃ r', m.construct r.file = .ok r' ∧ ∀ id, r'.get id = r.get id) ↔
      registrySize m (setItem clientId client (m.run puts).clients) ≤ maxClientRegistryBytes := by
  have hbounded := (bounded_run m puts).put hput
  obtain ⟨clientId', hid', -, hclients, hfile⟩ := put_eq_ok hput
  obtain rfl : clientId' = clientId := by simpa [hid] using hid'.symm
  have hne : r.clients ≠ [] := by
    rw [hclients]
    cases (m.run puts).clients with
    | nil => simp [setItem]
    | cons item rest =>
      rw [setItem]
      split_ifs <;> simp
  rw [← hclients, ← byteLength_payload m hne, hfile]
  constructor
  · rintro ⟨r', hconstruct, -⟩
    by_contra hlarge
    rw [construct_of_large (Nat.lt_of_not_le hlarge)] at hconstruct
    simp at hconstruct
  · intro hsmall
    refine ⟨_, construct_of_small hdump hround hbounded hsmall, fun id => ?_⟩
    have hkeys : ((sortByKey r.clients).map Prod.fst).Nodup :=
      ((sortByKey_perm r.clients).map Prod.fst).nodup_iff.mpr hbounded.nodup
    exact lookup_eq_of_perm (sortByKey_perm r.clients) hkeys id

/-! ## Clients with a name -/

/-- Records of an id and a name. -/
def namedClients : ClientModel (String × String) where
  clientId c := some c.1
  dump c := .obj [("client_id", .str c.1), ("client_name", .str c.2)]
  validate v := do
    let id ← (v.get "client_id").bind Json.asStr
    let name ← (v.get "client_name").bind Json.asStr
    pure (id, name)

theorem wellFormed_namedClients (c : String × String) : WellFormed (namedClients.dump c) := by
  refine .obj (by simp) ?_
  intro item hitem
  rcases List.mem_cons.mp hitem with rfl | hitem
  · exact .str _
  · obtain rfl := List.mem_singleton.mp hitem
    exact .str _

theorem validate_namedClients (c : String × String) :
    namedClients.validate (canonical (namedClients.dump c)) = some c := by
  have hsorted : canonical (namedClients.dump c) = namedClients.dump c := by
    have hle : ("client_id" : String) ≤ "client_name" := by decide
    simp [namedClients, canonical, canonicalMembers, sortByKey, hle]
  rw [hsorted]
  rfl

/-- Two small clients survive a restart. -/
theorem restart_agrees_iff_named :
    ∃ r, namedClients.put (namedClients.run [("a", "phone")]) ("b", "tablet") = .ok r ∧
      ∃ r', namedClients.construct r.file = .ok r' ∧ ∀ id, r'.get id = r.get id := by
  have hid : namedClients.clientId ("b", "tablet") = some "b" := rfl
  have hput := put_of_room (r := namedClients.run [("a", "phone")]) hid (by decide +kernel)
  exact ⟨_, hput, (restart_agrees_iff wellFormed_namedClients validate_namedClients
    [("a", "phone")] hid hput).mpr (by decide +kernel)⟩

/-- A text takes a byte for every character. -/
theorem length_le_byteLength (text : List Char) : text.length ≤ byteLength text := by
  induction text with
  | nil => simp
  | cons c text ih =>
    have hsize := String.length_utf8EncodeChar c
    have hpos := c.utf8Size_pos
    rw [byteLength, utf8Encode, List.flatMap_cons, List.length_append, List.length_cons, hsize]
    rw [byteLength, utf8Encode] at ih
    omega

/-- A string literal has a character for every character of the string. -/
theorem length_le_dumpsStr (s : String) : s.toList.length ≤ (dumpsStr s).length := by
  have hbody (text : List Char) : text.length ≤ (text.flatMap escapeChar).length := by
    induction text with
    | nil => simp
    | cons c text ih =>
      have hpos : 0 < (escapeChar c).length := by
        rw [List.length_pos_iff]
        unfold escapeChar
        split_ifs
        any_goals simp
        unfold codeUnits
        split_ifs <;> simp
      rw [List.flatMap_cons, List.length_append, List.length_cons]
      omega
  have hle := hbody s.toList
  rw [dumpsStr, List.length_cons, List.length_append]
  omega

/-- The record of a client contains its name. -/
theorem length_le_dumpsIndent_dump (c : String × String) :
    c.2.toList.length ≤ (dumpsIndent 1 (namedClients.dump c)).length := by
  have hname := length_le_dumpsStr c.2
  have hle : ("client_id" : String) ≤ "client_name" := by decide
  have hsorted : sortByKey [("client_id", Json.str c.1), ("client_name", Json.str c.2)] =
      [("client_id", .str c.1), ("client_name", .str c.2)] := by
    simp [sortByKey, hle]
  rw [namedClients, dumpsIndent_obj 1 (by simp), hsorted]
  simp only [List.map_cons, List.map_nil, joinComma, memberLine, memberText, dumpsIndent,
    List.length_cons, List.length_append]
  omega

/-- A client takes more bytes than its name has characters. -/
theorem length_lt_registrySize (c : String × String) :
    c.2.toList.length < registrySize namedClients [(c.1, c)] := by
  have hdump := length_le_dumpsIndent_dump c
  have hbytes := length_le_byteLength (dumpsIndent 1 (namedClients.dump c))
  rw [registrySize, List.map_singleton, List.sum_singleton]
  dsimp only
  omega

/-- A registered client with a large name is lost: the restart fails. -/
theorem construct_of_large_name {c : String × String}
    (hlarge : maxClientRegistryBytes ≤ c.2.toList.length) :
    ∃ r, namedClients.put (namedClients.run []) c = .ok r ∧
      namedClients.construct r.file = .error "device OAuth client registry is too large" := by
  have hempty : (namedClients.run []).clients = [] := rfl
  have hid : namedClients.clientId c = some c.1 := rfl
  have hput := put_of_room (r := namedClients.run []) hid (by simp [hempty, maxRegisteredClients])
  rw [hempty, setItem] at hput
  have hsize := length_lt_registrySize c
  rw [← byteLength_payload namedClients (by simp)] at hsize
  exact ⟨_, hput, construct_of_large (hlarge.trans_lt hsize)⟩

/-- The name that fills the file. -/
def fillingName : String := String.ofList (List.replicate maxClientRegistryBytes 'x')

/-- A client whose name fills the file is registered and its record is read back, and the
restart fails. -/
theorem filling_name_not_restarted :
    (∀ c, namedClients.validate (canonical (namedClients.dump c)) = some c) ∧
    ∃ r, namedClients.put (namedClients.run []) ("client", fillingName) = .ok r ∧
      namedClients.construct r.file = .error "device OAuth client registry is too large" := by
  refine ⟨validate_namedClients, construct_of_large_name (c := ("client", fillingName)) ?_⟩
  have hlength : fillingName.toList.length = maxClientRegistryBytes := by
    rw [fillingName, String.toList_ofList, List.length_replicate]
  exact hlength.ge

end ContributorGateway.ClientRegistry
