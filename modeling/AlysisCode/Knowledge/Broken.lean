/-
A field that the writer's line ends break is not read back.

`json.dumps` leaves U+0085, U+2028 and U+2029 as they are and `str.splitlines` ends a line
there.  What follows is taken for a line of its own: an item more, or a key, for which a colon
of the string is used up.  Either way the value that is read differs from what was written.
-/
import AlysisCode.Knowledge.Colons

namespace AlysisCode.Knowledge

open Text
open Json (QuotesEscaped escapeChar)

variable {F : Type} [Json.Floats F] {python : Python F}

def Broken (s : String) : Prop := ∃ c ∈ s.toList, isWideBreak c = true

/-- A written string behind its opening mark. -/
def written (s : String) : List Char := s.toList.flatMap (escapeChar false) ++ ['"']

theorem quote_eq (s : String) : Json.quote false s = '"' :: written s := rfl

variable {c : Char} {raw : List Char} {items : List String} {r r' : Reading F}

theorem isLineBreak_of_isWideBreak (h : isWideBreak c = true) : isLineBreak c = true := by
  unfold isWideBreak at h
  exact (Bool.and_eq_true _ _ ▸ h).1

/-! ### A broken string -/

theorem colons_escapeChar (c : Char) : colons (escapeChar false c) = colons [c] := by
  have hdigit (n : Nat) : ':' ≠ Nat.digitChar n := by
    by_cases hn : n < 16
    · have hall : ∀ n < 16, ':' ≠ Nat.digitChar n := by decide
      exact hall n hn
    · unfold Nat.digitChar
      iterate 16 rw [if_neg (by omega)]
      decide
  have hcontrol (n : Nat) : colons (Json.unicodeEscape n) = 0 := by
    rw [List.count_eq_zero]
    simp [Json.unicodeEscape, hdigit]
  unfold escapeChar
  split_ifs with h₁ h₂ h₃ h₄ h₅ h₆ h₇ h₈
  · rw [h₁]; decide
  · rw [h₂]; decide
  · rw [h₃]; decide
  · rw [h₄]; decide
  · rw [h₅]; decide
  · rw [h₆]; decide
  · rw [h₇]; decide
  · rw [hcontrol, eq_comm, List.count_eq_zero, List.mem_singleton]
    rintro rfl
    exact absurd h₈ (by decide)
  all_goals simp_all

theorem colons_written (s : String) : colons (written s) = colons s.toList := by
  have hbody (t : List Char) : colons (t.flatMap (escapeChar false)) = colons t := by
    induction t with
    | nil => rfl
    | cons c t ih =>
      have hcons : colons ([c] ++ t) = colons [c] + colons t := List.count_append
      have hescaped : colons (escapeChar false c ++ t.flatMap (escapeChar false)) =
          colons (escapeChar false c) + colons (t.flatMap (escapeChar false)) :=
        List.count_append
      rw [List.flatMap_cons, hescaped, ih, colons_escapeChar, ← hcons]
      rfl
  have hend : colons (written s) =
      colons (s.toList.flatMap (escapeChar false)) + colons ['"'] := List.count_append
  have hquote : colons ['"'] = 0 := by decide
  rw [hend, hbody, hquote, Nat.add_zero]

/-- Where a broken string is broken first. -/
structure Breach (s : String) (x y : List Char) (b : Char) : Prop where
  eq : written s = x ++ b :: y
  front : ∀ c ∈ x, isLineBreak c = false
  isBreak : isLineBreak b = true

variable {s key : String} {b : Char} {x y t : List Char}

theorem Broken.breach (h : Broken s) : ∃ x y b, Breach s x y b := by
  obtain ⟨c, hc, hwide⟩ := h
  have hself : escapeChar false c = [c] := by
    have hc' : 0x7F < c.toNat := by
      simp only [isWideBreak, isLineBreak, Bool.or_eq_true, Bool.and_eq_true, decide_eq_true_eq,
        beq_iff_eq] at hwide
      omega
    have hne (d : Char) (hd : d.toNat ≤ 0x7F) : c ≠ d := by
      rintro rfl
      omega
    unfold escapeChar
    rw [if_neg (hne _ (by decide)), if_neg (hne _ (by decide)), if_neg (hne _ (by decide)),
      if_neg (hne _ (by decide)), if_neg (hne _ (by decide)), if_neg (hne _ (by decide)),
      if_neg (hne _ (by decide)), if_neg (by omega), if_neg (by simp)]
  have hmem : c ∈ written s := by
    refine List.mem_append_left _ (List.mem_flatMap.mpr ⟨c, hc, ?_⟩)
    rw [hself]
    exact List.mem_singleton_self c
  obtain ⟨x, b, y, heq, hx, hb⟩ := exists_first ⟨c, hmem, isLineBreak_of_isWideBreak hwide⟩
  exact ⟨x, y, b, heq, hx, hb⟩

theorem Breach.back_ne (h : Breach s x y b) : y ≠ [] ∧ y.getLast? = some '"' := by
  have hlast : (written s).getLast? = some '"' := List.getLast?_concat
  rw [h.eq, List.getLast?_append, List.getLast?_cons] at hlast
  cases hy : y.getLast? with
  | none =>
    rw [hy] at hlast
    obtain rfl : b = '"' := Option.some.inj hlast
    exact absurd h.isBreak (by decide)
  | some c =>
    rw [hy] at hlast
    refine ⟨?_, hlast⟩
    rintro rfl
    cases hy

theorem Breach.escaped (h : Breach s x y b) : QuotesEscaped y := by
  have hwhole := Json.quotesEscaped_written false s.toList
  have heq : s.toList.flatMap (escapeChar false) ++ ['"'] = (x ++ [b]) ++ y := by
    rw [List.append_assoc, List.singleton_append]
    exact h.eq
  rw [heq] at hwhole
  refine hwhole.right ?_
  rw [List.getLast?_concat]
  intro hb
  have hbreak := h.isBreak
  rw [Option.some.inj hb] at hbreak
  exact absurd hbreak (by decide)

theorem Breach.colons (h : Breach s x y b) : colons x + colons y = colons s.toList := by
  have hcolon : (b == ':') = false := by
    rw [beq_eq_false_iff_ne]
    rintro rfl
    exact absurd h.isBreak (by decide)
  rw [← colons_written, h.eq]
  simp [Knowledge.colons, List.count_append, List.count_cons, hcolon]

theorem escaped_cut (h : QuotesEscaped t) : ∀ p ∈ cut t, QuotesEscaped p := by
  induction t using cut_induction with
  | whole t hwhole =>
    rw [cut_whole hwhole]
    intro p hp
    rw [List.mem_singleton.mp hp]
    exact h
  | broken x b y hx hb ih =>
    rw [cut_broken hx hb]
    intro p hp
    rcases List.mem_cons.mp hp with rfl | hp
    · exact h.left
    · have heq : x ++ b :: y = (x ++ [b]) ++ y := by simp
      rw [heq] at h
      refine ih (h.right ?_) p hp
      rw [List.getLast?_concat]
      intro hslash
      rw [Option.some.inj hslash] at hb
      exact absurd hb (by decide)

theorem last_cut (h : t.getLast? = some c) (hc : isLineBreak c = false) :
    ∃ front last, cut t = front ++ [last] ∧ last.getLast? = some c := by
  induction t using cut_induction with
  | whole t hwhole => exact ⟨[], t, cut_whole hwhole, h⟩
  | broken x b y hx hb ih =>
    have hy : y.getLast? = some c := by
      rw [List.getLast?_append, List.getLast?_cons] at h
      cases hy : y.getLast? with
      | none =>
        rw [hy] at h
        obtain rfl : b = c := Option.some.inj h
        rw [hb] at hc
        cases hc
      | some d =>
        rwa [hy] at h
    obtain ⟨front, last, hcut, hlast⟩ := ih hy
    refine ⟨x :: front, last, ?_, hlast⟩
    rw [cut_broken hx hb, hcut]
    rfl

/-! ### What is read of the pieces -/

theorem QuotesEscaped.strip (h : QuotesEscaped t) : QuotesEscaped (stripWhere isSpace t) := by
  obtain ⟨a, b, heq, ha, -⟩ := stripWhere_split isSpace t
  rw [heq] at h
  refine (h.right fun hlast => ?_).left
  exact absurd (ha _ (List.mem_of_getLast? hlast)) (by decide)

theorem tame_of_escaped (h : QuotesEscaped raw) : Tame F raw := by
  unfold Tame parseFrontmatterScalar
  dsimp only
  split
  · exact Nat.zero_le _
  · split
    · rename_i v hv
      rw [colonCount_of_stringless (Json.loads_of_quotesEscaped (QuotesEscaped.strip h) hv).1]
      exact Nat.zero_le _
    · show colons (String.ofList _).toList ≤ _
      rw [String.toList_ofList, colons_strip]

theorem tameLine_of_escaped {line : List Char} (h : QuotesEscaped line) : TameLine F line := by
  obtain ⟨b, hb, -⟩ := rstrip_split line
  have hline : QuotesEscaped (rstrip line) := by
    rw [hb] at h
    exact h.left
  constructor
  · intro raw hraw
    rw [hraw] at hline
    exact tame_of_escaped (hline.right (by decide))
  · intro key raw _ hraw
    have heq : key ++ ':' :: raw = (key ++ [':']) ++ raw := by simp
    rw [hraw, heq] at hline
    refine tame_of_escaped (hline.right ?_)
    rw [List.getLast?_concat]
    decide

theorem Breach.parse_front (h : Breach s x y b) (hraw : stripWhere isSpace raw = '"' :: rstrip x) :
    parseFrontmatterScalar (F := F) raw = .str (String.ofList ('"' :: rstrip x)) := by
  obtain ⟨spaces, hx, -⟩ := rstrip_split x
  have hsplit : rstrip x ++ (spaces ++ b :: y) = written s := by
    rw [h.eq]
    conv_rhs => rw [hx]
    simp
  have hloads : Json.loads (F := F) (String.ofList ('"' :: rstrip x)) = none :=
    Json.loads_front hsplit (by simp)
  unfold parseFrontmatterScalar
  rw [hraw]
  rw [if_neg (by simp), hloads]

theorem strip_front (x : List Char) : stripWhere isSpace ('"' :: x) = '"' :: rstrip x :=
  stripWhere_cons (by decide) x

/-! ### A broken string under a key -/

/-- **What is read under the key of a broken string lacks a colon.** -/
theorem readLines_broken_scalar (hpython : ShowsColons python) (hkey : PlainKey key) (hs : Broken s)
    (h : readLines python r ((fieldLines (key, .scalar (some s))).flatMap cut) = .ok r') :
    colonCount (Json.get r'.data key) < colons s.toList := by
  obtain ⟨x, y, b, hbreach⟩ := hs.breach
  have hfront : ∀ c ∈ key.toList ++ ':' :: ' ' :: '"' :: x, isLineBreak c = false := by
    intro c hc
    simp only [List.mem_append, List.mem_cons] at hc
    rcases hc with hc | rfl | rfl | rfl | hc
    · exact (hkey.chars c hc).2.2
    · decide
    · decide
    · decide
    · exact hbreach.front c hc
  have hlines : (fieldLines (key, .scalar (some s))).flatMap cut =
      (key.toList ++ ':' :: ' ' :: '"' :: x) :: cut y := by
    have hline : key.toList ++ ':' :: ' ' :: frontmatterScalar (some s) =
        (key.toList ++ ':' :: ' ' :: '"' :: x) ++ b :: y := by
      show key.toList ++ ':' :: ' ' :: '"' :: written s = _
      rw [hbreach.eq]
      simp
    rw [fieldLines, hline, List.flatMap_singleton, cut_broken hfront hbreach.isBreak]
  have hstrip : stripWhere isSpace (' ' :: '"' :: x) = '"' :: rstrip x := by
    rw [stripWhere_space, strip_front]
  have hfirst := readLine_key python r hkey (' ' :: '"' :: x)
  rw [if_neg (by simp [hstrip]), hbreach.parse_front hstrip] at hfirst
  rw [hlines, readLines, List.foldlM_cons, hfirst] at h
  have hrest : readLines python _ (cut y) = .ok r' := h
  -- the first line behind the breach cannot be an item
  have hkeyLine : 1 ≤ ((cut y).map keyLines).sum := by
    obtain ⟨p, ps, hp⟩ := List.exists_cons_of_ne_nil (List.splitOnP_ne_nil isLineBreak y)
    have hcut : cut y = p :: ps := hp
    rw [hcut, readLines, List.foldlM_cons] at hrest
    obtain ⟨r₁, hline, -⟩ := Runs.bind_eq_ok.mp hrest
    have hone : keyLines p = 1 := by
      unfold keyLines
      split
      · rename_i hbullet
        unfold readLine at hline
        rw [if_pos hbullet] at hline
        cases hline
      · rfl
    rw [hcut, List.map_cons, List.sum_cons, hone]
    omega
  have htame : ∀ p ∈ cut y, TameLine F p := fun p hp =>
    tameLine_of_escaped (escaped_cut hbreach.escaped p hp)
  have hcolons := readLines_colons hpython htame hrest key
  have hget : colonCount (Json.get (Json.assign r.data key
      (.str (String.ofList ('"' :: rstrip x)))) key) = colons x := by
    rw [get_assign, if_pos rfl]
    show colons (String.ofList _).toList = _
    rw [String.toList_ofList, ← colons_rstrip x]
    rfl
  have hsum := sum_colons_cut y
  have hwhole := hbreach.colons
  dsimp only at hcolons
  omega

/-! ### A broken string in a list -/

def itemLine (s : String) : List Char := bullet ++ Json.quote false s

def itemOf (python : Python F) (line : List Char) : String :=
  python.text (parseFrontmatterScalar (F := F) ((rstrip line).drop 4))

/-- It is more than spaces. -/
def inked (python : Python F) (line : List Char) : Bool := strip (itemOf python line) != ""

theorem colons_itemLine (s : String) : colons (itemLine s) = colons s.toList := by
  have hquote : colons (Json.quote false s) = colons (written s) := by
    rw [quote_eq]
    rfl
  rw [← colons_written, ← hquote]
  show colons (bullet ++ Json.quote false s) = _
  rw [colons, List.count_append]
  have hbullet : colons bullet = 0 := by decide
  simp only [colons] at hbullet ⊢
  omega

theorem cut_itemLine_unbroken (h : ¬ Broken s) : cut (itemLine s) = [itemLine s] := by
  apply cut_whole
  intro c hc
  rcases List.mem_append.mp hc with hc | hc
  · have hbullet : ∀ c ∈ bullet, isLineBreak c = false := by decide
    exact hbullet c hc
  · refine no_break_of_unbroken (fun d hd => ?_) c hc
    by_contra hwide
    exact h ⟨d, hd, by simpa using hwide⟩

theorem Breach.cut_itemLine (h : Breach s x y b) :
    cut (itemLine s) = (bullet ++ '"' :: x) :: cut y := by
  have hline : itemLine s = (bullet ++ '"' :: x) ++ b :: y := by
    show bullet ++ '"' :: written s = _
    rw [h.eq]
    simp
  have hfront : ∀ c ∈ bullet ++ '"' :: x, isLineBreak c = false := by
    intro c hc
    rcases List.mem_append.mp hc with hc | hc
    · have hbullet : ∀ c ∈ bullet, isLineBreak c = false := by decide
      exact hbullet c hc
    · rcases List.mem_cons.mp hc with rfl | hc
      · decide
      · exact h.front c hc
  rw [hline, cut_broken hfront h.isBreak]

theorem rstrip_bullet_quote (t : List Char) :
    rstrip (bullet ++ '"' :: t) = bullet ++ '"' :: rstrip t := rstrip_append_cons (by decide) _ _

theorem bullet_isPrefixOf (t : List Char) : bullet.isPrefixOf (bullet ++ t) = true :=
  List.isPrefixOf_iff_prefix.mpr (List.prefix_append _ _)

theorem tameLine_item (h : Tame F ('"' :: rstrip t)) : TameLine F (bullet ++ '"' :: t) := by
  constructor
  · intro raw hraw
    rw [rstrip_bullet_quote] at hraw
    rw [← List.append_cancel_left hraw]
    exact h
  · intro key raw hbullet _
    rw [rstrip_bullet_quote, bullet_isPrefixOf] at hbullet
    cases hbullet

theorem rstrip_written (s : String) : rstrip (written s) = written s := by
  unfold rstrip written
  rw [List.rdropWhile_concat_neg _ _ _ (by decide)]

theorem tameLine_unbroken (s : String) : TameLine F (itemLine s) := by
  show TameLine F (bullet ++ '"' :: written s)
  refine tameLine_item ?_
  rw [rstrip_written]
  have hparse := parseFrontmatterScalar_written (F := F) (some s)
  unfold Tame
  show colonCount (parseFrontmatterScalar (frontmatterScalar (some s)) : Json F) ≤ _
  rw [hparse]
  show colons s.toList ≤ colons ('"' :: written s)
  rw [← colons_written]
  exact Nat.le_refl _

theorem Breach.tame_front (h : Breach s x y b) : Tame F ('"' :: rstrip x) := by
  have hstrip : stripWhere isSpace ('"' :: rstrip x) = '"' :: rstrip x := by
    rw [strip_front, rstrip_rstrip]
  unfold Tame
  rw [h.parse_front hstrip]
  show Knowledge.colons (String.ofList _).toList ≤ _
  rw [String.toList_ofList]

theorem tameLine_cut (s : String) : ∀ line ∈ cut (itemLine s), TameLine F line := by
  intro line hline
  by_cases hs : Broken s
  · obtain ⟨x, y, b, hbreach⟩ := hs.breach
    rw [hbreach.cut_itemLine] at hline
    rcases List.mem_cons.mp hline with rfl | hline
    · exact tameLine_item hbreach.tame_front
    · exact tameLine_of_escaped (escaped_cut hbreach.escaped line hline)
  · rw [cut_itemLine_unbroken hs] at hline
    rw [List.mem_singleton.mp hline]
    exact tameLine_unbroken s

theorem readLines_bullets {lines : List (List Char)}
    (hbullets : ∀ line ∈ lines, bullet.isPrefixOf (rstrip line) = true) {read : List (Json F)}
    (hkey : r.key = some key) (hread : r.data.lookup key = some (.arr read))
    (h : readLines python r lines = .ok r') :
    r'.data.lookup key = some (.arr (read ++ lines.map fun line => .str (itemOf python line))) := by
  induction lines generalizing r read with
  | nil =>
    cases h
    simpa using hread
  | cons line lines ih =>
    have hline : readLine python r line = .ok ⟨Json.assign r.data key
        (.arr (read ++ [.str (itemOf python line)])), some key⟩ := by
      unfold readLine
      rw [if_pos (hbullets line List.mem_cons_self)]
      simp only [hkey, hread, Option.getD_some]
      rfl
    rw [readLines, List.foldlM_cons, hline] at h
    have hrest := ih (fun l hl => hbullets l (List.mem_cons_of_mem line hl)) rfl
      (Json.lookup_assign_self _ _ _) h
    simpa using hrest

theorem mem_strip_ne_nil (hc : c ∈ s.toList) (hspace : isSpace c = false) : strip s ≠ "" := by
  intro hempty
  have hlist : (strip s).toList = stripWhere isSpace s.toList := String.toList_ofList
  have hmem := mem_stripWhere hc hspace
  rw [← hlist, hempty] at hmem
  cases hmem

theorem Broken.items_lt (h : Broken s)
    (hbullets : ∀ line ∈ cut (itemLine s), bullet.isPrefixOf (rstrip line) = true) :
    1 < (cut (itemLine s)).countP (inked python) := by
  obtain ⟨x, y, b, hbreach⟩ := h.breach
  obtain ⟨front, last, hcut, hlast⟩ := last_cut hbreach.back_ne.2 (by decide)
  have hlines : cut (itemLine s) = (bullet ++ '"' :: x) :: (front ++ [last]) := by
    rw [hbreach.cut_itemLine, hcut]
  have hfirst : inked python (bullet ++ '"' :: x) = true := by
    have hraw : (rstrip (bullet ++ '"' :: x)).drop 4 = '"' :: rstrip x := by
      rw [rstrip_bullet_quote]
      rfl
    have hstrip : stripWhere isSpace ('"' :: rstrip x) = '"' :: rstrip x := by
      rw [strip_front, rstrip_rstrip]
    unfold inked itemOf
    rw [hraw, hbreach.parse_front hstrip, bne_iff_ne]
    refine mem_strip_ne_nil (c := '"') ?_ (by decide)
    show '"' ∈ (String.ofList _).toList
    rw [String.toList_ofList]
    exact List.mem_cons_self
  have hend : inked python last = true := by
    have hmem : last ∈ cut (itemLine s) := by
      rw [hlines]
      simp
    obtain ⟨raw, hraw⟩ := List.isPrefixOf_iff_prefix.mp (hbullets last hmem)
    have hmark : '"' ∈ rstrip last := by
      obtain ⟨spaces, hsplit, hspaces⟩ := rstrip_split last
      have hin := List.mem_of_getLast? hlast
      rw [hsplit] at hin
      rcases List.mem_append.mp hin with hin | hin
      · exact hin
      · exact absurd (hspaces _ hin) (by decide)
    have hmarkRaw : '"' ∈ raw := by
      rw [← hraw] at hmark
      rcases List.mem_append.mp hmark with hmark | hmark
      · exact absurd hmark (by decide)
      · exact hmark
    have hescaped : QuotesEscaped raw := by
      have hpiece := escaped_cut hbreach.escaped last (by rw [hcut]; simp)
      obtain ⟨spaces, hsplit, -⟩ := rstrip_split last
      rw [hsplit, ← hraw] at hpiece
      exact hpiece.left.right (by decide)
    have hmarkStrip : '"' ∈ stripWhere isSpace raw := mem_stripWhere hmarkRaw (by decide)
    have hparse : parseFrontmatterScalar (F := F) raw =
        .str (String.ofList (stripWhere isSpace raw)) := by
      unfold parseFrontmatterScalar
      rw [if_neg (by simpa using List.ne_nil_of_mem hmarkStrip)]
      split
      · rename_i v hv
        exact absurd hmarkStrip (Json.loads_of_quotesEscaped (QuotesEscaped.strip hescaped) hv).2
      · rfl
    have hdrop : (rstrip last).drop 4 = raw := by
      rw [← hraw]
      rfl
    unfold inked itemOf
    rw [hdrop, hparse, bne_iff_ne]
    refine mem_strip_ne_nil (c := '"') ?_ (by decide)
    show '"' ∈ (String.ofList _).toList
    rw [String.toList_ofList]
    exact hmarkStrip
  rw [hlines, List.countP_cons_of_pos hfirst, List.countP_append,
    List.countP_singleton, if_pos hend]
  omega

theorem itemOf_itemLine (s : String) : itemOf python (itemLine s) = s := by
  have hstrip : rstrip (itemLine s) = itemLine s := by
    show rstrip (bullet ++ '"' :: written s) = _
    rw [rstrip_bullet_quote, rstrip_written]
    rfl
  have hdrop : (itemLine s).drop 4 = frontmatterScalar (some s) := rfl
  unfold itemOf
  rw [hstrip, hdrop, parseFrontmatterScalar_written]
  rfl

theorem inked_cut
    (hbullets : ∀ line ∈ (items.map itemLine).flatMap cut, bullet.isPrefixOf (rstrip line) = true)
    (hbroken : ∃ s ∈ items, Broken s) :
    items.countP (fun s => strip s != "") <
      ((items.map itemLine).flatMap cut).countP (inked python) := by
  have hsum (items : List String) : items.countP (fun s => strip s != "") =
      (items.map fun s => if strip s = "" then 0 else 1).sum := by
    induction items with
    | nil => rfl
    | cons s items ih =>
      rw [List.countP_cons, ih, List.map_cons, List.sum_cons]
      by_cases hs : strip s = ""
      · simp [hs]
      · simp [hs, Nat.add_comm]
  have hlt {s : String} (hmem : s ∈ items) (hs : Broken s) :
      (if strip s = "" then 0 else 1) < (cut (itemLine s)).countP (inked python) := by
    have hitems : 1 < (cut (itemLine s)).countP (inked python) :=
      hs.items_lt fun line hline => hbullets line
        (List.mem_flatMap.mpr ⟨itemLine s, List.mem_map_of_mem hmem, hline⟩)
    split <;> omega
  have hle {s : String} (hmem : s ∈ items) :
      (if strip s = "" then 0 else 1) ≤ (cut (itemLine s)).countP (inked python) := by
    by_cases hs : Broken s
    · exact Nat.le_of_lt (hlt hmem hs)
    · rw [cut_itemLine_unbroken hs, List.countP_singleton, inked, itemOf_itemLine]
      by_cases hempty : strip s = ""
      · simp [hempty]
      · simp [hempty]
  rw [hsum, List.countP_flatMap, List.map_map]
  obtain ⟨s, hmem, hs⟩ := hbroken
  exact List.sum_lt_sum _ _ (fun t ht => hle ht) ⟨s, hmem, hlt hmem hs⟩

theorem sum_colons_items (items : List String) :
    (((items.map itemLine).flatMap cut).map colons).sum =
      (items.map fun s => colons s.toList).sum := by
  induction items with
  | nil => rfl
  | cons s items ih =>
    rw [List.map_cons, List.flatMap_cons, List.map_append, List.sum_append, ih, sum_colons_cut,
      colons_itemLine, List.map_cons, List.sum_cons]

theorem cut_list (hkey : PlainKey key) (items : List String) :
    (fieldLines (key, .list items)).flatMap cut =
      (key.toList ++ [':']) :: (items.map itemLine).flatMap cut := by
  have hheader : cut (key.toList ++ [':']) = [key.toList ++ [':']] := by
    apply cut_whole
    intro c hc
    rcases List.mem_append.mp hc with hc | hc
    · exact (hkey.chars c hc).2.2
    · rw [List.mem_singleton.mp hc]
      decide
  show cut (key.toList ++ [':']) ++ (items.map itemLine).flatMap cut = _
  rw [hheader]
  rfl

/-- **What is read under the key of a list with a broken string lacks a colon, or has an item too
many.** -/
theorem readLines_broken_list (hpython : ShowsColons python) (hkey : PlainKey key)
    (hbroken : ∃ s ∈ items, Broken s)
    (h : readLines python r ((fieldLines (key, .list items)).flatMap cut) = .ok r') :
    colonCount (Json.get r'.data key) < (items.map fun s => colons s.toList).sum ∨
      ∃ read, Json.get r'.data key = .arr read ∧ items.countP (fun s => strip s != "") <
          read.countP fun v => strip (python.text v) != "" := by
  have hempty : stripWhere isSpace [] = [] := rfl
  have hfirst := readLine_key python r hkey []
  rw [if_pos hempty] at hfirst
  rw [cut_list hkey, readLines, List.foldlM_cons, hfirst] at h
  have hrest : readLines python ⟨Json.assign r.data key (.arr []), some key⟩
      ((items.map itemLine).flatMap cut) = .ok r' := h
  by_cases hbullets : ∀ line ∈ (items.map itemLine).flatMap cut,
      bullet.isPrefixOf (rstrip line) = true
  · right
    have hread := readLines_bullets hbullets rfl (Json.lookup_assign_self r.data key (.arr [])) hrest
    have hget : Json.get r'.data key = .arr (((items.map itemLine).flatMap cut).map fun line =>
        .str (itemOf python line)) := by
      rw [Json.get, hread]
      rfl
    have hinked : ((fun v => strip (python.text v) != "") ∘ fun line =>
        (.str (itemOf python line) : Json F)) = inked python := by
      funext line
      simp only [Function.comp_apply, inked, Python.text]
    refine ⟨_, hget, ?_⟩
    rw [List.countP_map, hinked]
    exact inked_cut hbullets hbroken
  · left
    have htame : ∀ line ∈ (items.map itemLine).flatMap cut, TameLine F line := by
      intro line hline
      obtain ⟨whole, hwhole, hline⟩ := List.mem_flatMap.mp hline
      obtain ⟨s, -, rfl⟩ := List.mem_map.mp hwhole
      exact tameLine_cut s line hline
    have hcolons := readLines_colons hpython htame hrest key
    have hone : 1 ≤ (((items.map itemLine).flatMap cut).map keyLines).sum := by
      simp only [not_forall] at hbullets
      obtain ⟨line, hline, hbullet⟩ := hbullets
      have hkeyed : keyLines line = 1 := by
        unfold keyLines
        rw [if_neg hbullet]
      rw [← hkeyed]
      exact List.single_le_sum (by simp) _ (List.mem_map_of_mem hline)
    have hget : colonCount (Json.get (Json.assign r.data key (.arr [])) key) = 0 := by
      rw [get_assign, if_pos rfl]
      rfl
    rw [sum_colons_items] at hcolons
    dsimp only at hcolons
    omega

end AlysisCode.Knowledge
