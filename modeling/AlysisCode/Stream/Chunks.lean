/-
The lines and the frames of a provider's stream, whatever the chunks it arrives in.

A carriage return at the end of a chunk is held back until it is known whether a newline
follows.  An empty chunk behind it ends the line, so the newline behind that ends a second one.
-/
import AlysisCode.Ide.Common
import AlysisCode.Library.Lines

namespace AlysisCode.Stream.Sse

open Text

/-! ### Lines -/

/-- The fragments of the line begun so far, joined, and `pending_cr`. -/
structure Held where
  line : List Char := []
  pendingCr : Bool := false

def scanChunk (line : List Char) : List Char → List (List Char) × Held
  | [] => ([], ⟨line, false⟩)
  | ['\r'] => ([], ⟨line, true⟩)
  | '\r' :: '\n' :: rest =>
    let (lines, left) := scanChunk [] rest
    ((line ++ ['\r', '\n']) :: lines, left)
  | c :: rest =>
    if endsLine c then
      let (lines, left) := scanChunk [] rest
      ((line ++ [c]) :: lines, left)
    else scanChunk (line ++ [c]) rest

variable (s : Held) {chunk rest : List Char}

/-- The body of the loop over the chunks. -/
def feedChunk (chunk : List Char) : List (List Char) × Held :=
  if s.pendingCr then
    match chunk with
    | '\n' :: rest =>
      let (lines, left) := scanChunk [] rest
      ((s.line ++ ['\r', '\n']) :: lines, left)
    | chunk =>
      let (lines, left) := scanChunk [] chunk
      ((s.line ++ ['\r']) :: lines, left)
  else scanChunk s.line chunk

def iterLinesFrom (s : Held) : List (List Char) → List (List Char)
  | [] => field (if s.pendingCr then s.line ++ ['\r'] else s.line)
  | chunk :: rest => (feedChunk s chunk).1 ++ iterLinesFrom (feedChunk s chunk).2 rest

def iterLinesFromTextChunks (chunks : List (List Char)) : List (List Char) :=
  iterLinesFrom {} chunks

/-! ### Frames -/

/-- What has been read of a frame. -/
structure Block where
  event : List Char := "message".toList
  eventId : Option (List Char) := none
  retry : Option Int := none
  dataLines : List (List Char) := []
  deriving DecidableEq

structure SSEFrame where
  event : List Char
  data : List Char
  eventId : Option (List Char)
  retry : Option Int

def Block.frame (b : Block) : SSEFrame where
  event := if b.event = [] then "message".toList else b.event
  data := List.intercalate ['\n'] b.dataLines
  eventId := b.eventId
  retry := b.retry

def Block.flush (b : Block) : Option Block := if b = {} then none else some b

/-- A line without its end. -/
def bare (raw : List Char) : List Char := raw.rdropWhile endsLine

def splitField (line : List Char) : List Char × List Char :=
  match line.dropWhile (· ≠ ':') with
  | [] => (line, [])
  | _ :: value => (line.takeWhile (· ≠ ':'), if value.head? = some ' ' then value.tail else value)

/-- The value of a data line. -/
def dataField (raw : List Char) : Option (List Char) :=
  if (splitField (bare raw)).1 = "data".toList then some (splitField (bare raw)).2 else none

section Frames

variable (pyInt : List Char → Option Int)

variable (b : Block)

/-- One field; `pyInt` is `int`, or `none` for a `ValueError`. -/
def Block.set (line : List Char) : Block :=
  let (name, value) := splitField line
  if name = "event".toList then { b with event := value }
  else if name = "data".toList then { b with dataLines := b.dataLines ++ [value] }
  else if name = "id".toList then { b with eventId := some value }
  else if name = "retry".toList then { b with retry := pyInt value }
  else b

/-- The frames of the lines, before any is taken for the end. -/
def blocksFrom (b : Block) : List (List Char) → List Block
  | [] => b.flush.toList
  | raw :: rest =>
    let line := bare raw
    if line = [] then b.flush.toList ++ blocksFrom {} rest
    else if line.head? = some ':' then blocksFrom b rest
    else blocksFrom (b.set pyInt line) rest

def iterSseFrames (doneSentinels : List (List Char)) (includeDone : Bool)
    (lines : List (List Char)) : List SSEFrame :=
  ((blocksFrom pyInt {} lines).map Block.frame).takeWhile fun frame =>
    !(doneSentinels.contains (stripWhere isSpace frame.data)) || includeDone

variable {pyInt}

theorem dataLines_flush : b.flush.toList.flatMap (·.dataLines) = b.dataLines := by
  unfold Block.flush
  split
  · rename_i h
    simp [h]
  · simp

theorem dataLines_set (raw : List Char) :
    (b.set pyInt (bare raw)).dataLines = b.dataLines ++ (dataField raw).toList := by
  unfold Block.set dataField
  by_cases hdata : (splitField (bare raw)).1 = "data".toList
  · simp [hdata]
  · simp only [hdata, if_false, Option.toList_none, List.append_nil]
    split_ifs <;> rfl

/-- **The data fields of the frames are those of the lines.** -/
theorem blocksFrom_data (lines : List (List Char)) :
    (blocksFrom pyInt b lines).flatMap (·.dataLines) =
      b.dataLines ++ lines.filterMap dataField := by
  induction lines generalizing b with
  | nil => simp [blocksFrom, dataLines_flush]
  | cons raw rest ih =>
    unfold blocksFrom
    by_cases hblank : bare raw = []
    · have hnone : dataField raw = none := by simp [dataField, hblank, splitField]
      simp [hblank, hnone, ih, dataLines_flush]
    · by_cases hcomment : (bare raw).head? = some ':'
      · have hnone : dataField raw = none := by
          obtain ⟨tail, htail⟩ := List.head?_eq_some_iff.mp hcomment
          simp [dataField, htail, splitField]
        simp [hblank, hcomment, hnone, ih]
      · simp only [if_neg hblank, if_neg hcomment, ih, dataLines_set, List.append_assoc,
          List.filterMap_cons]
        cases dataField raw <;> simp

end Frames

/-! ### Chunks -/

/-- The lines still to come when the text goes on with `rest`. -/
def resume (rest : List Char) : List (List Char) :=
  physicalLinesFrom s.line (if s.pendingCr then '\r' :: rest else rest)

variable (line : List Char)

theorem physicalLinesFrom_cr (h : rest.head? ≠ some '\n') :
    physicalLinesFrom line ('\r' :: rest) = (line ++ ['\r']) :: physicalLinesFrom [] rest := by
  refine physicalLinesFrom.eq_3 _ _ _ fun t _ ht => h ?_
  rw [ht]
  rfl

theorem scanChunk_resume (chunk rest : List Char) : physicalLinesFrom line (chunk ++ rest) =
      (scanChunk line chunk).1 ++ resume (scanChunk line chunk).2 rest := by
  induction line, chunk using scanChunk.induct with
  | case1 line | case2 line => rfl
  | case3 line tail _ _ _ ih => simp [scanChunk, physicalLinesFrom, ih]
  | case4 line c tail hcr hcrlf hc lines left hscan ih =>
    have hnot : ∀ t, c = '\r' → tail ++ rest = '\n' :: t → False := by
      intro t hc' ht
      cases tail with
      | nil => exact hcr hc' rfl
      | cons d tail =>
        obtain ⟨rfl, -⟩ := List.cons.inj ht
        exact hcrlf _ hc' rfl
    rw [List.cons_append, physicalLinesFrom.eq_3 _ _ _ hnot, if_pos hc,
      scanChunk.eq_4 _ _ _ hcr hcrlf, if_pos hc, ih]
    rfl
  | case5 line c tail hcr hcrlf hc ih =>
    have hnot : ∀ t, c = '\r' → tail ++ rest = '\n' :: t → False := by
      rintro t rfl -
      exact hc rfl
    rw [List.cons_append, physicalLinesFrom.eq_3 _ _ _ hnot, if_neg hc,
      scanChunk.eq_4 _ _ _ hcr hcrlf, if_neg hc, ih]

/-- An empty chunk stands between a carriage return and a newline. -/
def Cuts (chunk rest : List Char) : Prop :=
  s.pendingCr = true ∧ chunk = [] ∧ rest.head? = some '\n'

theorem feedChunk_resume {s : Held} (h : ¬ Cuts s chunk rest) :
    resume s (chunk ++ rest) = (feedChunk s chunk).1 ++ resume (feedChunk s chunk).2 rest := by
  obtain ⟨line, pendingCr⟩ := s
  cases pendingCr with
  | false => exact scanChunk_resume line chunk rest
  | true =>
    show physicalLinesFrom line ('\r' :: (chunk ++ rest)) = _
    cases chunk with
    | nil =>
      have hhead : rest.head? ≠ some '\n' := fun hhead => h ⟨rfl, rfl, hhead⟩
      exact physicalLinesFrom_cr line hhead
    | cons c tail =>
      by_cases hc : c = '\n'
      · subst hc
        show (line ++ ['\r', '\n']) :: physicalLinesFrom [] (tail ++ rest) = _
        rw [scanChunk_resume]
        rfl
      · rw [physicalLinesFrom_cr line (by simpa using hc), scanChunk_resume]
        simp [feedChunk, hc]

theorem feedChunk_cuts {s : Held} (h : Cuts s chunk rest) (lines : List (List Char)) :
    resume s (chunk ++ rest) ≠ (feedChunk s chunk).1 ++ lines := by
  obtain ⟨hpending, rfl, hhead⟩ := h
  obtain ⟨tail, rfl⟩ := List.head?_eq_some_iff.mp hhead
  simp [resume, hpending, physicalLinesFrom, feedChunk, scanChunk]

theorem scanChunk_pendingCr (chunk : List Char) :
    (scanChunk line chunk).2.pendingCr = true ↔ chunk.getLast? = some '\r' := by
  induction line, chunk using scanChunk.induct with
  | case1 line | case2 line => simp [scanChunk]
  | case3 line tail lines left hscan ih => cases tail <;> simp_all [scanChunk]
  | case4 line c tail hcr hcrlf hc lines left hscan ih =>
    rw [scanChunk.eq_4 _ _ _ hcr hcrlf, if_pos hc]
    cases tail <;> simp_all [scanChunk]
  | case5 line c tail hcr hcrlf hc ih =>
    rw [scanChunk.eq_4 _ _ _ hcr hcrlf, if_neg hc]
    cases tail <;> simp_all [scanChunk]

theorem feedChunk_pendingCr (chunk : List Char) :
    (feedChunk s chunk).2.pendingCr = true ↔ chunk.getLast? = some '\r' := by
  unfold feedChunk
  split
  · split
    · rename_i rest
      cases rest <;> simp [scanChunk_pendingCr, scanChunk]
    · exact scanChunk_pendingCr _ _
  · exact scanChunk_pendingCr _ _

/-- Behind a chunk that ends with a carriage return comes an empty one, and then a newline. -/
def CutApart (chunks : List (List Char)) : Prop :=
  ∃ before chunk after, chunks = before ++ chunk :: [] :: after ∧
    chunk.getLast? = some '\r' ∧ after.flatten.head? = some '\n'

theorem cutApart_cons {rest : List (List Char)} :
    CutApart (chunk :: rest) ↔ (∃ after, rest = [] :: after ∧ chunk.getLast? = some '\r' ∧
      after.flatten.head? = some '\n') ∨ CutApart rest := by
  constructor
  · rintro ⟨before, c, after, heq, hlast, hhead⟩
    cases before with
    | nil =>
      cases heq
      exact .inl ⟨after, rfl, hlast, hhead⟩
    | cons b before => exact .inr ⟨before, c, after, (List.cons.inj heq).2, hlast, hhead⟩
  · rintro (⟨after, rfl, hlast, hhead⟩ | ⟨before, c, after, rfl, hlast, hhead⟩)
    · exact ⟨[], chunk, after, rfl, hlast, hhead⟩
    · exact ⟨chunk :: before, c, after, rfl, hlast, hhead⟩

theorem iterLinesFrom_eq_iff (chunks : List (List Char)) :
    iterLinesFrom s chunks = resume s chunks.flatten ↔
      ¬ ((∃ after, chunks = [] :: after ∧ s.pendingCr = true ∧
        after.flatten.head? = some '\n') ∨ CutApart chunks) := by
  induction chunks generalizing s with
  | nil =>
    have hends : iterLinesFrom s [] = resume s [] := by
      obtain ⟨line, pendingCr⟩ := s
      cases pendingCr <;> simp [iterLinesFrom, resume, physicalLinesFrom, endsLine, field]
    simp [hends, CutApart]
  | cons chunk rest ih =>
    rw [iterLinesFrom, List.flatten_cons, cutApart_cons]
    by_cases hcuts : Cuts s chunk rest.flatten
    · refine iff_of_false (feedChunk_cuts hcuts _).symm ?_
      obtain ⟨hpending, rfl, hhead⟩ := hcuts
      exact not_not_intro (.inl ⟨rest, rfl, hpending, hhead⟩)
    · have hfirst : ¬ ∃ after, chunk :: rest = [] :: after ∧ s.pendingCr = true ∧
          after.flatten.head? = some '\n' := by
        rintro ⟨after, heq, hpending, hhead⟩
        cases heq
        exact hcuts ⟨hpending, rfl, hhead⟩
      rw [feedChunk_resume hcuts, List.append_cancel_left_eq, ih]
      simp only [feedChunk_pendingCr, hfirst, false_or]

/-- The lines and the frames are those of the whole text, every carriage return, newline and
pair of them ends one line of it, and every data field is in a frame. -/
def DependsOnText (pyInt : List Char → Option Int) (doneSentinels : List (List Char))
    (includeDone : Bool) (chunks : List (List Char)) : Prop :=
  let lines := iterLinesFromTextChunks chunks
  lines = physicalLines chunks.flatten ∧
  iterSseFrames pyInt doneSentinels includeDone lines =
    iterSseFrames pyInt doneSentinels includeDone (physicalLines chunks.flatten) ∧
  (blocksFrom pyInt {} lines).flatMap (·.dataLines) =
    (physicalLines chunks.flatten).filterMap dataField

/-- **The chunks do not matter, unless one that is empty cuts a pair apart.** -/
theorem dependsOnText_iff (pyInt : List Char → Option Int) (doneSentinels : List (List Char))
    (includeDone : Bool) (chunks : List (List Char)) :
    DependsOnText pyInt doneSentinels includeDone chunks ↔ ¬ CutApart chunks := by
  have hlines : iterLinesFromTextChunks chunks = physicalLines chunks.flatten ↔
      ¬ CutApart chunks := by
    refine (iterLinesFrom_eq_iff {} chunks).trans (not_congr ?_)
    simp
  refine ⟨fun h => hlines.mp h.1, fun h => ?_⟩
  have heq := hlines.mpr h
  refine ⟨heq, by rw [heq], ?_⟩
  rw [heq, blocksFrom_data]
  rfl

theorem emptyChunk_cuts : ¬ DependsOnText (fun _ => none) ["[DONE]".toList] false
    ["data: a\r".toList, [], "\ndata: b".toList] := by
  intro h
  have hlines : iterLinesFromTextChunks ["data: a\r".toList, [], "\ndata: b".toList] ≠
      physicalLines ["data: a\r".toList, [], "\ndata: b".toList].flatten := by decide +kernel
  exact hlines h.1

end AlysisCode.Stream.Sse
