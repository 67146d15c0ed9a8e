/-
# URL and path helpers

`normalize_url`, `to_file_url`, `to_lower` and `paths_match` of `debug_session.cpp`.
-/
import Mathlib.Data.List.Infix
import QjsDebug.Basic

namespace QjsDebug

/-- `DebugSession::normalize_url`: every backslash becomes a slash. -/
def normalizeUrl (path : Bytes) : Bytes :=
  path.map fun c => if c = byte '\\' then byte '/' else c

/-- `DebugSession::to_file_url`: an absolute path (leading `/`, or a drive letter) gets the
`file://` scheme, anything else stays as it is. -/
def toFileUrl (path : Bytes) : Bytes :=
  let norm := normalizeUrl path
  if (ascii "file://").isPrefixOf norm then norm
  else match norm with
    | [] => norm
    | c :: rest =>
      if c = byte '/' then ascii "file://" ++ norm
      else if 3 ≤ norm.length ∧ rest.head? = some (byte ':') then
        ascii "file://" ++ (byte '/' :: norm)
      else norm

/-- `to_lower`. -/
def toLower (s : Bytes) : Bytes := s.map tolower

/-- `paths_match`: file names fold case on Windows and nowhere else. -/
def pathsMatch (host : Host) (a b : Bytes) : Bool :=
  if host.windows then toLower a == toLower b else a == b

theorem normalizeUrl_idem (path : Bytes) :
    normalizeUrl (normalizeUrl path) = normalizeUrl path := by
  simp only [normalizeUrl, List.map_map]
  refine List.map_congr_left fun c _ => ?_
  by_cases h : c = byte '\\'
  · simp [h, byte]
  · simp [h]

end QjsDebug
