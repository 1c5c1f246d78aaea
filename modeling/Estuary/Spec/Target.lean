import Estuary.Spec.Event

/-!
# Estuary — object names (`ct_target`)

`ct_target` strips `path_prefix` from the full path of a file and returns a pointer into the
same buffer; the object name is the C string that pointer points at. The buffer is the
`char full_path[PATH_MAX]` of the caller, written by `sprintf`: the path, its terminator, and
behind it whatever the stack held before (`stack`). A path that does not fit into the array with its
terminator runs over its end.
-/

namespace Estuary

open Engine

/-- `strstr`: the position of the first occurrence of `needle`. -/
def strstr (needle : List Char) : List Char → Option Nat
  | [] => if needle.isPrefixOf [] then some 0 else none
  | c :: hay =>
    if needle.isPrefixOf (c :: hay) then some 0 else (strstr needle hay).map (· + 1)

/-- `ct_target`: the returned pointer, as an offset into `full_path`, or `none` for NULL. -/
def ctTarget (pathPrefix fullPath : CString) : Option Nat :=
  match strstr pathPrefix.chars fullPath.chars with
  | some 0 => some (pathPrefix.chars.length + 1)
  | _ => none

/-- The C string at an offset of a buffer holding `fullPath` and then `stack`. -/
def nameAt (fullPath : CString) (stack : List Char) (off : Nat) : CString :=
  cstr ((fullPath.chars ++ nul :: stack).drop off)

/-- The object name for a file path whose full path fits into `full_path`. -/
def objectName (cfg : Config) (stack : List Char) (filePath : CString) : Option CString :=
  (ctTarget cfg.pathPrefix (joinPath cfg.oMnt filePath)).map
    (nameAt (joinPath cfg.oMnt filePath) stack)

/-- `PATH_MAX`. -/
def pathMax : Nat := 4096

/-- The full path of a file and its terminator fit into `char full_path[PATH_MAX]`. -/
def FitsFullPath (cfg : Config) (filePath : CString) : Prop :=
  (joinPath cfg.oMnt filePath).chars.length < pathMax

instance (cfg : Config) (filePath : CString) : Decidable (FitsFullPath cfg filePath) :=
  inferInstanceAs (Decidable (_ < _))

/-- The lines that begin `ct_archive`'s upload and `ct_restore_data`'s download: `sprintf` the full
path, then `ct_target`. -/
def fullPathTarget (cfg : Config) (stack : List Char) (filePath : CString) : Proc (Option CString) :=
  if FitsFullPath cfg filePath then pure (objectName cfg stack filePath)
  else Exec.die .bufferOverflow

end Estuary
