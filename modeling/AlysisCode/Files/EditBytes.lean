/-
The bytes of a file that is edited.

The file is decoded, edited and encoded again.  A sequence of bytes that is no character is decoded
to the replacement character and is written back as that, wherever it stands.  So the bytes outside
the regions stay what they were exactly when the regions take in all such sequences.
-/
import AlysisCode.Files.EditRegions
import AlysisCode.Library.Utf8

namespace AlysisCode.Files

open Splice Utf8

variable {F : Type}

/-! ### The call -/

inductive FsEditError where
  | noEdits
  | edit (e : EditError)

/-- The result of `write_prepared_fs_edit`, and what the file holds then. -/
structure FsEdited where
  written : List UInt8
  appliedEdits : Nat
  changed : Bool
  size : Nat

/-- `fs_edit` of a file with the bytes, where nobody else writes to it. -/
def fsEdit (original : List UInt8) (edits : List (Option (List (String × Json F)))) :
    Except FsEditError FsEdited :=
  if edits = [] then .error .noEdits
  else
    let originalContent := decodeReplacing original
    match applyEdits originalContent 1 edits with
    | .error e => .error (.edit e)
    | .ok updatedContent =>
      .ok
        { written := encode updatedContent
          appliedEdits := edits.length
          changed := updatedContent != originalContent
          size := (encode updatedContent).length }

/-! ### What the edits ask for -/

/-- The edits done to the pieces of a file: what they keep stays the bytes it is. -/
def editPieces (pieces : List Piece) : List (Option (List (String × Json F))) → List Piece
  | [] => pieces
  | none :: rest => editPieces pieces rest
  | some edit :: rest =>
    editPieces
      (splice ((regions (pieces.map Piece.shown) edit).map (Splice.Part.map Piece.char)) pieces) rest

/-- The bytes with exactly the regions of the edits replaced or extended. -/
def expectedBytes (original : List UInt8) (edits : List (Option (List (String × Json F)))) :
    List UInt8 :=
  (editPieces (decode original) edits).flatMap Piece.bytes

variable {pieces : List Piece} {edits : List (Option (List (String × Json F)))}

/-- **The text of the code is what the pieces are shown as.** -/
theorem applyEdits_shown {index : Nat} {content : List Char}
    (h : applyEdits (pieces.map Piece.shown) index edits = .ok content) :
    (editPieces pieces edits).map Piece.shown = content := by
  induction edits generalizing pieces index with
  | nil => exact Except.ok.inj h
  | cons first rest ih =>
    cases first with
    | none => cases h
    | some edit =>
      rw [applyEdits] at h
      cases hedit : applySingleFsEdit (pieces.map Piece.shown) edit index with
      | error e =>
        rw [hedit] at h
        cases h
      | ok content' =>
        rw [hedit] at h
        have hdoes := (applySingleFsEdit_does hedit).splice
        have hid : Piece.shown ∘ Piece.char = id := rfl
        have hnext : (splice ((regions (pieces.map Piece.shown) edit).map
            (Splice.Part.map Piece.char)) pieces).map Piece.shown = content' := by
          rw [map_splice, map_map_part, hid, map_id_part, hdoes]
        rw [editPieces]
        rw [← hnext] at h
        exact ih h

/-! ### What is written back -/

/-- No piece is a sequence of bytes that is no character. -/
def Whole (pieces : List Piece) : Prop := ∀ m, .malformed m ∉ pieces

theorem length_shown_bytes (m : List UInt8) :
    (String.utf8EncodeChar (Piece.malformed m).shown).length = 3 := by
  show (String.utf8EncodeChar (Char.ofNat 0xFFFD)).length = 3
  decide +kernel

theorem encode_shown_of_whole (h : Whole pieces) :
    encode (pieces.map Piece.shown) = pieces.flatMap Piece.bytes := by
  induction pieces with
  | nil => rfl
  | cons piece rest ih =>
    have hrest := ih fun m hm => h m (List.mem_cons_of_mem piece hm)
    cases piece with
    | char c =>
      show String.utf8EncodeChar c ++ encode (rest.map Piece.shown) = _
      rw [hrest]
      rfl
    | malformed m => exact absurd List.mem_cons_self (h m)

theorem length_bytes_le (h : ∀ m, .malformed m ∈ pieces → Bad m) :
    (pieces.flatMap Piece.bytes).length ≤ (encode (pieces.map Piece.shown)).length := by
  induction pieces with
  | nil => simp
  | cons piece rest ih =>
    have hrest := ih fun m hm => h m (List.mem_cons_of_mem piece hm)
    have hencode : encode ((piece :: rest).map Piece.shown) =
        String.utf8EncodeChar piece.shown ++ encode (rest.map Piece.shown) := rfl
    rw [hencode, List.flatMap_cons, List.length_append, List.length_append]
    cases piece with
    | char c =>
      have hsame : (Piece.char c).bytes = String.utf8EncodeChar (Piece.char c).shown := rfl
      rw [hsame]
      omega
    | malformed m =>
      have hshort : (Piece.malformed m).bytes.length ≤ 3 := (h m List.mem_cons_self).short
      rw [length_shown_bytes]
      omega

/-- **Pieces are written back as the bytes they are exactly when they are all characters.** -/
theorem encode_shown_iff (h : ∀ m, .malformed m ∈ pieces → Bad m) :
    encode (pieces.map Piece.shown) = pieces.flatMap Piece.bytes ↔ Whole pieces := by
  refine ⟨fun heq => ?_, encode_shown_of_whole⟩
  induction pieces with
  | nil =>
    intro m hm
    cases hm
  | cons piece rest ih =>
    have hbad : ∀ m, .malformed m ∈ rest → Bad m := fun m hm => h m (List.mem_cons_of_mem piece hm)
    have hencode : encode ((piece :: rest).map Piece.shown) =
        String.utf8EncodeChar piece.shown ++ encode (rest.map Piece.shown) := rfl
    rw [hencode, List.flatMap_cons] at heq
    cases piece with
    | char c =>
      have hrest := ih hbad (List.append_cancel_left heq)
      intro m hm
      rcases List.mem_cons.mp hm with hm | hm
      · cases hm
      · exact hrest m hm
    | malformed m =>
      -- the replacement character has the three bytes a sequence can have at most
      have hm := h m List.mem_cons_self
      have hle := length_bytes_le hbad
      have hlength := congrArg List.length heq
      rw [List.length_append, List.length_append, length_shown_bytes] at hlength
      have hshort : (Piece.malformed m).bytes.length ≤ 3 := hm.short
      have hsame : (String.utf8EncodeChar (Piece.malformed m).shown).length =
          (Piece.malformed m).bytes.length := by
        rw [length_shown_bytes]
        omega
      exact absurd (List.append_inj_left heq hsame).symm (hm.ne _)

theorem mem_splice {α β : Type*} {f : α → β} {parts : List (Splice.Part α)} {t : List β} {x : β}
    (h : x ∈ splice (parts.map (Splice.Part.map f)) t) : x ∈ t ∨ ∃ a, x = f a := by
  induction parts generalizing t with
  | nil => cases h
  | cons part rest ih =>
    cases part with
    | keep n =>
      rcases List.mem_append.mp h with h | h
      · exact Or.inl (List.mem_of_mem_take h)
      · exact (ih h).imp_left List.mem_of_mem_drop
    | drop n => exact (ih h).imp_left List.mem_of_mem_drop
    | insert items =>
      rcases List.mem_append.mp h with h | h
      · obtain ⟨a, -, rfl⟩ := List.mem_map.mp h
        exact Or.inr ⟨a, rfl⟩
      · exact ih h

theorem malformed_editPieces {m : List UInt8} (h : .malformed m ∈ editPieces pieces edits) :
    .malformed m ∈ pieces := by
  induction edits generalizing pieces with
  | nil => exact h
  | cons first rest ih =>
    cases first with
    | none => exact ih h
    | some edit =>
      rcases mem_splice (ih h) with h | ⟨c, h⟩
      · exact h
      · cases h

/-! ### Frames -/

/-- The edits change what they name: the file then has the bytes they ask for, and where they come
to nothing, the bytes it had. -/
structure Framed (original : List UInt8) (edits : List (Option (List (String × Json F))))
    (edited : FsEdited) : Prop where
  regions : edited.written = expectedBytes original edits
  unchanged : edited.changed = false → edited.written = original

/-- **A successful `fs_edit` changes only what its edits name exactly when they replace every
sequence of bytes that is no character, and come to nothing only in a file without one.** -/
theorem fs_edit_framed_iff {original : List UInt8} {edits : List (Option (List (String × Json F)))}
    {edited : FsEdited} (h : fsEdit original edits = .ok edited) :
    Framed original edits edited ↔
      Whole (editPieces (decode original) edits) ∧
        (edited.changed = false → Whole (decode original)) := by
  rw [fsEdit] at h
  split at h
  · cases h
  · dsimp only at h
    split at h
    · cases h
    · rename_i content happly
      have hshown : (editPieces (decode original) edits).map Piece.shown = content :=
        applyEdits_shown happly
      cases h
      have hbad := decode_bad original
      have hfirst : encode content = expectedBytes original edits ↔
          Whole (editPieces (decode original) edits) := by
        rw [← hshown, expectedBytes]
        exact encode_shown_iff fun m hm => hbad m (malformed_editPieces hm)
      have hsecond : (content != decodeReplacing original) = false →
          (encode content = original ↔ Whole (decode original)) := by
        intro hsame
        have heq : content = decodeReplacing original := by simpa using hsame
        have hiff := encode_shown_iff hbad
        rw [decode_bytes] at hiff
        rw [heq]
        exact hiff
      constructor
      · intro hframed
        exact ⟨hfirst.mp hframed.regions, fun hsame => (hsecond hsame).mp (hframed.unchanged hsame)⟩
      · rintro ⟨hwhole, horiginal⟩
        exact ⟨hfirst.mpr hwhole, fun hsame => (hsecond hsame).mpr (horiginal hsame)⟩

/-- A line with a byte that is no character gives way to another. -/
def lineEdit : List (Option (List (String × Json Unit))) :=
  [some [("op", .str "replace_lines"), ("start_line", .int 1), ("end_line", .int 1),
    ("replacement", .str "b")]]

theorem fs_edit_framed_line :
    ∃ edited, fsEdit [0xFF, 0x61] lineEdit = .ok edited ∧ Framed [0xFF, 0x61] lineEdit edited := by
  refine ⟨_, rfl, (fs_edit_framed_iff rfl).mpr ⟨?_, ?_⟩⟩
  · have hpieces : editPieces (decode [0xFF, 0x61]) lineEdit = [.char 'b'] := by decide
    intro m hm
    rw [hpieces] at hm
    cases List.mem_singleton.mp hm
  · intro hsame
    cases hsame

/-- An edit that adds nothing. -/
def emptyEdit : List (Option (List (String × Json Unit))) :=
  [some [("op", .str "append"), ("content", .str "")]]

/-- **A byte is lost to an edit that adds nothing.** -/
theorem fs_edit_not_framed :
    ∃ edited, fsEdit [0xFF, 0x61] emptyEdit = .ok edited ∧ edited.changed = false ∧
      ¬ Framed [0xFF, 0x61] emptyEdit edited := by
  refine ⟨_, rfl, ?_, fun h => ?_⟩
  · decide
  · have hsame := h.unchanged (by decide)
    revert hsame
    decide

end AlysisCode.Files
