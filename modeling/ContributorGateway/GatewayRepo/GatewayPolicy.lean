import ContributorGateway.Core.RepositoryPolicy

/-!
# The gateway corpus

Which files of the gateway's own repository belong to its snapshot: thirteen files in the
root, workflows, and files with a text suffix in six directories.
-/

namespace ContributorGateway.GatewayContent

open PurePosixPath

/-- `APPROVED_ROOT_FILES`. -/
def approvedRootFiles : List (List Char) :=
  [".dockerignore", ".env.example", ".env.gateway-repo.example", ".gitignore", "CONTRIBUTING.md",
    "Dockerfile", "LICENSE", "README.md", "SECURITY.md", "docker-compose.yml",
    "docker-compose.gateway-repo.yml", "pyproject.toml", "requirements.lock"].map String.toList

/-- `APPROVED_ROOT_DIRECTORIES`. -/
def approvedRootDirectories : List (List Char) :=
  [".github", "app", "cloudflared", "deploy", "docs", "scripts", "tests"].map String.toList

/-- `ALLOWED_SUFFIXES`. -/
def allowedSuffixes : List (List Char) :=
  [".css", ".html", ".json", ".lock", ".md", ".py", ".sh", ".toml", ".txt", ".yaml",
    ".yml"].map String.toList

/-- The suffixes of workflows. -/
def workflowSuffixes : List (List Char) := [".yaml", ".yml"].map String.toList

/-- `is_admitted_gateway_path`, with `str.lower` as a parameter. A path without parts raises
`IndexError`. -/
def isAdmittedGatewayPath (lower : List Char → List Char) (path : List Char) : Option Bool :=
  if path = [] ∨ nul ∈ path ∨ '\\' ∈ path then some false
  else
    let relative := PurePosixPath.ofText path
    if relative.isAbsolute || relative.parts.any isDotPart then some false
    else if relative.parts.length = 1 then some (approvedRootFiles.contains path)
    else
      relative.parts.head?.bind fun root =>
        let rest := relative.parts.tail
        if !approvedRootDirectories.contains root then some false
        else if root = ".github".toList then
          if relative.parts.length < 3 ∨ rest.head? ≠ some "workflows".toList then some false
          else if rest.any isHidden then some false
          else some (workflowSuffixes.contains (lower relative.suffix))
        else if relative.parts.any isHidden then some false
        else some (allowedSuffixes.contains (lower relative.suffix))

end ContributorGateway.GatewayContent
