import ContributorGateway.Foundation.NulFrames
import ContributorGateway.Foundation.TextLines

/-!
# The digest of a corpus

Both inventories feed every file to SHA-256: its path, its size in decimal and its bytes, each
followed by a NUL. What is fed determines the files, so the digest in a manifest binds the
whole corpus.
-/

namespace ContributorGateway

/-- An inventoried file: its relative path and the bytes behind it. -/
structure CorpusFile where
  relativePath : List Char
  data : List UInt8
  deriving DecidableEq

/-- `size_bytes`. -/
def CorpusFile.sizeBytes (file : CorpusFile) : ℕ := file.data.length

/-- What the digest loop of an inventory feeds to SHA-256. -/
def hashedBytes (files : List CorpusFile) : List UInt8 :=
  files.flatMap fun file =>
    utf8Encode file.relativePath ++ [0] ++ utf8Encode (Nat.toDigits 10 file.sizeBytes) ++ [0] ++
      file.data ++ [0]

/-- What `compute_content_inventory` feeds to SHA-256. -/
def RepositoryContent.hashedContent (files : List CorpusFile) : List UInt8 := hashedBytes files

/-- What `compute_gateway_inventory` feeds to SHA-256. -/
def GatewayContent.hashedContent (files : List CorpusFile) : List UInt8 := hashedBytes files

/-- What is fed for a file is a frame. -/
theorem hashedBytes_eq (files : List CorpusFile) :
    hashedBytes files = (files.map fun file => (utf8Encode file.relativePath, file.data)).flatMap
      fun f => NulFrames.frame f.1 f.2 := by
  rw [hashedBytes, List.flatMap_map]
  refine List.flatMap_congr fun file _ => ?_
  have hdigits : utf8Encode (Nat.toDigits 10 file.sizeBytes) = NulFrames.decimal file.sizeBytes :=
    utf8Encode_ascii fun c hc => (NulFrames.digit_code hc).2.trans (by omega)
  rw [hdigits]
  simp [NulFrames.frame, CorpusFile.sizeBytes]

/-- The bytes that are fed determine the files. -/
theorem hashedBytes_inj {files files' : List CorpusFile} (hfiles : ∀ f ∈ files, nul ∉ f.relativePath)
    (hfiles' : ∀ f ∈ files', nul ∉ f.relativePath) (h : hashedBytes files = hashedBytes files') :
    files = files' := by
  rw [hashedBytes_eq, hashedBytes_eq] at h
  have hheads {fs : List CorpusFile} (hfs : ∀ f ∈ fs, nul ∉ f.relativePath) :
      ∀ f ∈ fs.map fun file => (utf8Encode file.relativePath, file.data), 0 ∉ f.1 := by
    intro f hf hzero
    obtain ⟨file, hfile, rfl⟩ := List.mem_map.mp hf
    exact hfs file hfile (nul_mem_of_zero_mem hzero)
  have hframes := NulFrames.frames_inj (hheads hfiles) (hheads hfiles') h
  refine List.map_injective_iff.mpr ?_ hframes
  rintro ⟨path, data⟩ ⟨path', data'⟩ heq
  obtain ⟨hpath, hdata⟩ := Prod.mk.inj heq
  obtain rfl : path = path' := utf8Encode_injective hpath
  obtain rfl : data = data' := hdata
  rfl

/-- The manifest digest binds the corpus: what either inventory feeds to SHA-256 is the same
only for the same files in the same order. -/
theorem digest_binds_corpus (files files' : List CorpusFile)
    (hfiles : ∀ f ∈ files, nul ∉ f.relativePath) (hfiles' : ∀ f ∈ files', nul ∉ f.relativePath) :
    (RepositoryContent.hashedContent files = RepositoryContent.hashedContent files' ↔
        files = files') ∧
      (GatewayContent.hashedContent files = GatewayContent.hashedContent files' ↔
        files = files') := by
  refine ⟨⟨?_, ?_⟩, ⟨?_, ?_⟩⟩
  · exact hashedBytes_inj hfiles hfiles'
  · rintro rfl
    rfl
  · exact hashedBytes_inj hfiles hfiles'
  · rintro rfl
    rfl

/-- A file whose bytes look like a second file is told from the two files. -/
theorem digest_binds_forged_header :
    RepositoryContent.hashedContent [⟨['a'], [0, 98, 0, 48, 0]⟩] ≠
      RepositoryContent.hashedContent [⟨['a'], []⟩, ⟨['b'], []⟩] := by
  have hbinds := digest_binds_corpus [⟨['a'], [0, 98, 0, 48, 0]⟩] [⟨['a'], []⟩, ⟨['b'], []⟩]
    (by decide) (by decide)
  exact fun h => absurd (hbinds.1.mp h) (by decide)

end ContributorGateway
