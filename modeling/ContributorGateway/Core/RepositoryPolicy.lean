import ContributorGateway.Foundation.PosixPath
import ContributorGateway.Foundation.TextLines

/-!
# The repository corpus

Which files of the engine repository belong to its snapshot: three files in the root, and
files with a text suffix in five directories, without hidden names and vendored code.
-/

namespace ContributorGateway.RepositoryContent

open PurePosixPath

/-- `APPROVED_ROOT_FILES`. -/
def approvedRootFiles : List (List Char) := ["AGENTS.md", "README.md", "Makefile"].map String.toList

/-- `APPROVED_ROOT_DIRECTORIES`. -/
def approvedRootDirectories : List (List Char) :=
  ["src", "instrument", "tools", "docs", "web"].map String.toList

/-- `ALLOWED_SUFFIXES`. -/
def allowedSuffixes : List (List Char) :=
  [".md", ".txt", ".rst", ".c", ".h", ".cc", ".cpp", ".py", ".java", ".sh", ".js", ".css", ".html",
    ".toml", ".json", ".yaml", ".yml", ".csv", ".tsv"].map String.toList

/-- `EXCLUDED_FILES`. -/
def excludedFiles : List (List Char) :=
  ["src/engine/stb_image.h", "src/engine/glad.c", "src/engine/glad.h",
    "src/engine/cgltf.h"].map String.toList

/-- `EXCLUDED_PREFIXES`. -/
def excludedPrefixes : List (List Char) := ["web/grn-catalog/vendor/"].map String.toList

/-- `is_admitted_repository_path`, with `str.lower` as a parameter. A path without parts
raises `IndexError`. -/
def isAdmittedRepositoryPath (lower : List Char → List Char) (path : List Char) : Option Bool :=
  if path = [] ∨ nul ∈ path ∨ '\\' ∈ path then some false
  else
    let relative := PurePosixPath.ofText path
    if relative.isAbsolute || relative.parts.any fun part => isDotPart part || isHidden part then
      some false
    else if path ∈ excludedFiles || excludedPrefixes.any fun p => p.isPrefixOf path then some false
    else if relative.parts.length = 1 then some (path ∈ approvedRootFiles)
    else
      match relative.parts with
      | [] => none
      | root :: _ =>
          if root ∉ approvedRootDirectories then some false
          else some (lower relative.suffix ∈ allowedSuffixes)

end ContributorGateway.RepositoryContent
