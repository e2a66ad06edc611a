/-
What the modules share of Python's built-in operations on values that JSON can hold.

`str` of a value that is no text is left to the host, as is which floats are zero.
-/
import AlysisCode.Ide.Common
import AlysisCode.Library.Json
import AlysisCode.Library.Text
import AlysisCode.Library.Unicode

namespace AlysisCode

structure Python (F : Type) where
  /-- `str(value)` of a value that is no text. -/
  str : Json F → String
  isZero : F → Bool

variable {F : Type}

namespace Python

variable (python : Python F)

/-- `str(value)` -/
def text : Json F → String
  | .str s => s
  | v => python.str v

/-- `bool(value)` -/
def truthy : Json F → Bool
  | .null => false
  | .bool b => b
  | .int n => n != 0
  | .float x => !python.isZero x
  | .str s => s != ""
  | .arr items => !items.isEmpty
  | .obj members => !members.isEmpty

/-- `value or default` -/
def orElse (v default : Json F) : Json F :=
  if python.truthy v then v else default

theorem orElse_str {s : String} (h : s ≠ "") (default : Json F) :
    python.orElse (.str s) default = .str s := by
  have htruthy : python.truthy (.str s) = true := by simpa [truthy] using h
  rw [orElse, if_pos htruthy]

end Python

/-- `str.lower()`, of which only the ASCII letters of the result are looked at. -/
def lower (value : String) : String := String.ofList (value.toList.flatMap Text.lowerAscii)

/-- `value.strip() or None` -/
def stripped (value : String) : Option String := if strip value = "" then none else some (strip value)

theorem strip_strip (value : String) : strip (strip value) = strip value := by
  show String.ofList (Text.stripWhere isSpace (strip value).toList) = _
  have hbare := Text.bare_stripWhere isSpace value.toList
  have hlist : (strip value).toList = Text.stripWhere isSpace value.toList := String.toList_ofList
  rw [hlist, hbare.stripWhere_eq]
  rfl

theorem strip_ne_empty_of_stripped {value s : String} (h : stripped value = some s) :
    strip s ≠ "" := by
  unfold stripped at h
  split at h
  · cases h
  · rename_i hne
    rw [← Option.some.inj h, strip_strip]
    exact hne

end AlysisCode
