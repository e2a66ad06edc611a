/-
Clean identifiers, and the directory that writer and reader give them.

An identifier is clean when every character of it is a letter, a digit, `-` or `_`.  Its
sanitised form is itself, and as a path it is one name: the writer's directory is the reader's.
Any other identifier has the two apart, since the sanitised form is as long as the identifier
and holds none of its other characters.
-/
import AlysisCode.Knowledge.Store

namespace AlysisCode.Knowledge

open Text Runs

/-- A character that `_sanitize_component` leaves. -/
def isIdChar (c : Char) : Bool := isAlnum c || c == '-' || c == '_'

/-- An identifier that names a directory as it is. -/
def Clean (id : String) : Prop := id ≠ "" ∧ ∀ c ∈ id.toList, isIdChar c = true

instance (id : String) : Decidable (Clean id) :=
  inferInstanceAs (Decidable (id ≠ "" ∧ ∀ c ∈ id.toList, isIdChar c = true))

/-! ### Characters -/

def spaceCodes : List Nat :=
  [9, 10, 11, 12, 13, 28, 29, 30, 31, 32, 0x85, 0xA0, 0x1680, 0x2000, 0x2001, 0x2002, 0x2003,
    0x2004, 0x2005, 0x2006, 0x2007, 0x2008, 0x2009, 0x200A, 0x2028, 0x2029, 0x202F, 0x205F, 0x3000]

theorem isSpace_of_isIdChar {c : Char} (h : isIdChar c = true) : isSpace c = false := by
  by_contra hspace
  rw [Bool.not_eq_false] at hspace
  have hcodes : c.toNat ∈ spaceCodes := by
    simp only [isSpace, Bool.or_eq_true, Bool.and_eq_true, decide_eq_true_eq, beq_iff_eq] at hspace
    simp only [spaceCodes, List.mem_cons, List.not_mem_nil, or_false]
    omega
  have hnone : ∀ n ∈ spaceCodes, isIdChar (Char.ofNat n) = false := by decide +kernel
  have := hnone c.toNat hcodes
  rw [Char.ofNat_toNat] at this
  rw [this] at h
  cases h

theorem ne_of_isIdChar {c d : Char} (h : isIdChar c = true) (hd : isIdChar d = false) : c ≠ d := by
  rintro rfl
  rw [h] at hd
  cases hd

variable {id : String}

theorem not_mem_of_clean (h : Clean id) {d : Char} (hd : isIdChar d = false) :
    d ∉ id.toList := fun hmem => ne_of_isIdChar (h.2 d hmem) hd rfl

/-! ### Clean identifiers -/

theorem Clean.strip_eq (h : Clean id) : strip id = id :=
  strip_of_none fun c hc => isSpace_of_isIdChar (h.2 c hc)

variable {text value : String}

theorem orDefault_of_ne (h : value ≠ "") (default : String) :
    orDefault value default = value := if_neg h

theorem toList_sanitizeComponent (h : strip value ≠ "") : (sanitizeComponent value).toList =
      (strip value).toList.map fun c => if isIdChar c then c else '_' := by
  have hne : String.ofList ((strip value).toList.map
      fun c => if isIdChar c then c else '_') ≠ "" := by
    intro hnil
    have hlist := congrArg String.toList hnil
    rw [String.toList_ofList] at hlist
    exact h (String.toList_eq_nil_iff.mp (List.map_eq_nil_iff.mp hlist))
  show (orDefault (String.ofList ((strip value).toList.map
    fun c => if isIdChar c then c else '_')) "item").toList = _
  rw [orDefault_of_ne hne, String.toList_ofList]

theorem Clean.sanitize_eq (h : Clean id) : sanitizeComponent id = id := by
  refine String.toList_inj.mp ?_
  rw [toList_sanitizeComponent (by rw [h.strip_eq]; exact h.1), h.strip_eq]
  refine (List.map_congr_left fun c hc => ?_).trans (List.map_id id.toList)
  rw [if_pos (h.2 c hc)]
  rfl

theorem clean_sanitizeComponent (value : String) : Clean (sanitizeComponent value) := by
  by_cases hvalue : strip value = ""
  · have hitem : sanitizeComponent value = "item" := by
      unfold sanitizeComponent
      rw [hvalue]
      decide
    rw [hitem]
    decide
  · have hlist := toList_sanitizeComponent hvalue
    refine ⟨?_, ?_⟩
    · intro hnil
      rw [hnil] at hlist
      exact hvalue (String.toList_eq_nil_iff.mp (List.map_eq_nil_iff.mp hlist.symm))
    · intro c hc
      rw [hlist] at hc
      obtain ⟨d, -, rfl⟩ := List.mem_map.mp hc
      by_cases hd : isIdChar d = true
      · rw [if_pos hd]
        exact hd
      · rw [if_neg hd]
        decide

theorem clean_of_sanitize_eq (h : sanitizeComponent id = id) : Clean id := by
  rw [← h]
  exact clean_sanitizeComponent id

/-! ### Paths -/

theorem pathParts_of_slashless (h : '/' ∉ text.toList) :
    pathParts text = if text = "" ∨ text = "." then [] else [text] := by
  have hsplit : text.toList.splitOn '/' = [text.toList] := by
    rw [List.splitOn_eq_splitOnP]
    refine List.splitOnP_eq_singleton fun c hc => ?_
    rw [beq_eq_false_iff_ne]
    rintro rfl
    exact h hc
  have hnil : text.toList = [] ↔ text = "" := String.toList_eq_nil_iff
  have hdot : text.toList = ['.'] ↔ text = "." := by
    rw [← String.toList_inj]
    rfl
  unfold pathParts
  rw [hsplit]
  by_cases hempty : text = "" ∨ text = "."
  · rw [if_pos hempty]
    rcases hempty with rfl | rfl <;> decide
  · rw [if_neg hempty]
    rw [not_or] at hempty
    simp [hnil, hdot, hempty.1, hempty.2]

theorem Clean.pathParts_eq (h : Clean id) : pathParts id = [id] := by
  rw [pathParts_of_slashless (not_mem_of_clean h (by decide)), if_neg]
  rintro (rfl | rfl)
  · exact h.1 rfl
  · exact absurd h (by decide)

theorem Clean.head_ne (h : Clean id) : id.toList.head? ≠ some '/' := fun hhead =>
  not_mem_of_clean h (by decide) (List.mem_of_mem_head? hhead)

theorem Clean.joinPath_eq (h : Clean id) (dir : List String) : joinPath dir id = dir ++ [id] := by
  rw [joinPath, if_neg h.head_ne, h.pathParts_eq]

theorem Clean.resolve_eq (h : Clean id) (d : Disk) (dir : List String) :
    d.resolve dir id = if dir ++ [id] ∈ d.dirs then some (dir ++ [id]) else none := by
  have hup : id ≠ ".." := by
    rintro rfl
    exact absurd h (by decide)
  rw [Disk.resolve, if_neg h.head_ne, h.pathParts_eq, Disk.walk, if_neg hup]
  rfl

/-- A piece of a text is no longer than it, and shorter if the text was cut at all. -/
theorem length_piece {x : Char} {t : List Char} : ∀ piece ∈ t.splitOn x,
      piece.length ≤ t.length ∧ (x ∈ t → piece.length < t.length) := by
  induction t with
  | nil =>
    intro piece hpiece
    obtain rfl : piece = [] := by simpa [List.splitOn_nil] using hpiece
    simp
  | cons a t ih =>
    intro piece hpiece
    rw [List.splitOn_cons_eq_if_modifyHead] at hpiece
    obtain ⟨first, rest, hpieces⟩ := List.exists_cons_of_ne_nil (List.splitOn_ne_nil x t)
    rw [hpieces] at hpiece ih
    simp only [List.length_cons]
    split at hpiece
    · rcases List.mem_cons.mp hpiece with rfl | hpiece
      · simp
      · have := (ih piece hpiece).1
        omega
    · rename_i ha
      have hmem : x ∈ a :: t → x ∈ t := fun h =>
        (List.mem_cons.mp h).resolve_left fun heq => ha (by simp [heq])
      rcases List.mem_cons.mp hpiece with rfl | hpiece
      · obtain ⟨hle, hlt⟩ := ih first List.mem_cons_self
        refine ⟨by simpa using hle, fun h => ?_⟩
        simpa using hlt (hmem h)
      · have := (ih piece (List.mem_cons_of_mem _ hpiece)).1
        omega

theorem length_lt_of_mem_pathParts {part : String} (hslash : '/' ∈ text.toList)
    (h : part ∈ pathParts text) : part.toList.length < text.toList.length := by
  obtain ⟨piece, hpiece, rfl⟩ := List.mem_map.mp h
  rw [String.toList_ofList]
  exact (length_piece piece (List.mem_filter.mp hpiece).1).2 hslash

/-- **The reader's directory is the writer's for clean identifiers only**, also where the
identifier is a path of several parts. -/
theorem clean_of_joinPath_eq {dir : List String}
    (h : joinPath dir id = dir ++ [sanitizeComponent id]) (htrim : strip id = id) (hne : id ≠ "") :
    Clean id := by
  have hlength : (sanitizeComponent id).toList.length = id.toList.length := by
    rw [toList_sanitizeComponent (by rwa [htrim]), List.length_map, htrim]
  have hmem : sanitizeComponent id ∈ pathParts id := by
    unfold joinPath at h
    split at h
    · rw [h]
      exact List.mem_append_right _ List.mem_cons_self
    · rw [List.append_cancel_left h]
      exact List.mem_cons_self
  by_cases hslash : '/' ∈ id.toList
  · have := length_lt_of_mem_pathParts hslash hmem
    omega
  · rw [pathParts_of_slashless hslash] at hmem
    split at hmem
    · cases hmem
    · exact clean_of_sanitize_eq (List.mem_singleton.mp hmem)

end AlysisCode.Knowledge
