/-
`str.casefold`: Unicode's full case folding.

Folding is a map on characters, most of them fixed.  `foldRanges` are the characters that
fold to one other, in arithmetic progressions, and `specialFolds` the ones that fold to
several.  What matters of the tables is what the checks below say: whatever a character
folds to is folded already, and is no whitespace.
-/
import Mathlib.Data.List.Induction
import AlysisCode.Library.Text

namespace Text

/-- The characters `first`, `first + stride`, …, `last`; the first folds to `target`, the
others as far behind it. -/
structure FoldRange where
  (first last stride target : Nat)

def FoldRange.contains (r : FoldRange) (n : Nat) : Bool :=
  r.first ≤ n && n ≤ r.last && (n - r.first) % r.stride == 0

def foldRanges : List FoldRange := [
  ⟨65,90,1,97⟩, ⟨181,181,1,956⟩, ⟨192,214,1,224⟩, ⟨216,222,1,248⟩, ⟨256,302,2,257⟩, ⟨306,310,2,307⟩,
  ⟨313,327,2,314⟩, ⟨330,374,2,331⟩, ⟨376,376,1,255⟩, ⟨377,381,2,378⟩, ⟨383,383,1,115⟩,
  ⟨385,385,1,595⟩, ⟨386,388,2,387⟩, ⟨390,390,1,596⟩, ⟨391,391,1,392⟩, ⟨393,394,1,598⟩,
  ⟨395,395,1,396⟩, ⟨398,398,1,477⟩, ⟨399,399,1,601⟩, ⟨400,400,1,603⟩, ⟨401,401,1,402⟩,
  ⟨403,403,1,608⟩, ⟨404,404,1,611⟩, ⟨406,406,1,617⟩, ⟨407,407,1,616⟩, ⟨408,408,1,409⟩,
  ⟨412,412,1,623⟩, ⟨413,413,1,626⟩, ⟨415,415,1,629⟩, ⟨416,420,2,417⟩, ⟨422,422,1,640⟩,
  ⟨423,423,1,424⟩, ⟨425,425,1,643⟩, ⟨428,428,1,429⟩, ⟨430,430,1,648⟩, ⟨431,431,1,432⟩,
  ⟨433,434,1,650⟩, ⟨435,437,2,436⟩, ⟨439,439,1,658⟩, ⟨440,440,1,441⟩, ⟨444,444,1,445⟩,
  ⟨452,452,1,454⟩, ⟨453,453,1,454⟩, ⟨455,455,1,457⟩, ⟨456,456,1,457⟩, ⟨458,458,1,460⟩,
  ⟨459,475,2,460⟩, ⟨478,494,2,479⟩, ⟨497,497,1,499⟩, ⟨498,500,2,499⟩, ⟨502,502,1,405⟩,
  ⟨503,503,1,447⟩, ⟨504,542,2,505⟩, ⟨544,544,1,414⟩, ⟨546,562,2,547⟩, ⟨570,570,1,11365⟩,
  ⟨571,571,1,572⟩, ⟨573,573,1,410⟩, ⟨574,574,1,11366⟩, ⟨577,577,1,578⟩, ⟨579,579,1,384⟩,
  ⟨580,580,1,649⟩, ⟨581,581,1,652⟩, ⟨582,590,2,583⟩, ⟨837,837,1,953⟩, ⟨880,882,2,881⟩,
  ⟨886,886,1,887⟩, ⟨895,895,1,1011⟩, ⟨902,902,1,940⟩, ⟨904,906,1,941⟩, ⟨908,908,1,972⟩,
  ⟨910,911,1,973⟩, ⟨913,929,1,945⟩, ⟨931,939,1,963⟩, ⟨962,962,1,963⟩, ⟨975,975,1,983⟩,
  ⟨976,976,1,946⟩, ⟨977,977,1,952⟩, ⟨981,981,1,966⟩, ⟨982,982,1,960⟩, ⟨984,1006,2,985⟩,
  ⟨1008,1008,1,954⟩, ⟨1009,1009,1,961⟩, ⟨1012,1012,1,952⟩, ⟨1013,1013,1,949⟩, ⟨1015,1015,1,1016⟩,
  ⟨1017,1017,1,1010⟩, ⟨1018,1018,1,1019⟩, ⟨1021,1023,1,891⟩, ⟨1024,1039,1,1104⟩, ⟨1040,1071,1,1072⟩,
  ⟨1120,1152,2,1121⟩, ⟨1162,1214,2,1163⟩, ⟨1216,1216,1,1231⟩, ⟨1217,1229,2,1218⟩,
  ⟨1232,1326,2,1233⟩, ⟨1329,1366,1,1377⟩, ⟨4256,4293,1,11520⟩, ⟨4295,4295,1,11559⟩,
  ⟨4301,4301,1,11565⟩, ⟨5112,5117,1,5104⟩, ⟨7296,7296,1,1074⟩, ⟨7297,7297,1,1076⟩,
  ⟨7298,7298,1,1086⟩, ⟨7299,7300,1,1089⟩, ⟨7301,7301,1,1090⟩, ⟨7302,7302,1,1098⟩,
  ⟨7303,7303,1,1123⟩, ⟨7304,7304,1,42571⟩, ⟨7312,7354,1,4304⟩, ⟨7357,7359,1,4349⟩,
  ⟨7680,7828,2,7681⟩, ⟨7835,7835,1,7777⟩, ⟨7840,7934,2,7841⟩, ⟨7944,7951,1,7936⟩,
  ⟨7960,7965,1,7952⟩, ⟨7976,7983,1,7968⟩, ⟨7992,7999,1,7984⟩, ⟨8008,8013,1,8000⟩,
  ⟨8025,8031,2,8017⟩, ⟨8040,8047,1,8032⟩, ⟨8120,8121,1,8112⟩, ⟨8122,8123,1,8048⟩, ⟨8126,8126,1,953⟩,
  ⟨8136,8139,1,8050⟩, ⟨8152,8153,1,8144⟩, ⟨8154,8155,1,8054⟩, ⟨8168,8169,1,8160⟩,
  ⟨8170,8171,1,8058⟩, ⟨8172,8172,1,8165⟩, ⟨8184,8185,1,8056⟩, ⟨8186,8187,1,8060⟩, ⟨8486,8486,1,969⟩,
  ⟨8490,8490,1,107⟩, ⟨8491,8491,1,229⟩, ⟨8498,8498,1,8526⟩, ⟨8544,8559,1,8560⟩, ⟨8579,8579,1,8580⟩,
  ⟨9398,9423,1,9424⟩, ⟨11264,11311,1,11312⟩, ⟨11360,11360,1,11361⟩, ⟨11362,11362,1,619⟩,
  ⟨11363,11363,1,7549⟩, ⟨11364,11364,1,637⟩, ⟨11367,11371,2,11368⟩, ⟨11373,11373,1,593⟩,
  ⟨11374,11374,1,625⟩, ⟨11375,11375,1,592⟩, ⟨11376,11376,1,594⟩, ⟨11378,11378,1,11379⟩,
  ⟨11381,11381,1,11382⟩, ⟨11390,11391,1,575⟩, ⟨11392,11490,2,11393⟩, ⟨11499,11501,2,11500⟩,
  ⟨11506,11506,1,11507⟩, ⟨42560,42604,2,42561⟩, ⟨42624,42650,2,42625⟩, ⟨42786,42798,2,42787⟩,
  ⟨42802,42862,2,42803⟩, ⟨42873,42875,2,42874⟩, ⟨42877,42877,1,7545⟩, ⟨42878,42886,2,42879⟩,
  ⟨42891,42891,1,42892⟩, ⟨42893,42893,1,613⟩, ⟨42896,42898,2,42897⟩, ⟨42902,42920,2,42903⟩,
  ⟨42922,42922,1,614⟩, ⟨42923,42923,1,604⟩, ⟨42924,42924,1,609⟩, ⟨42925,42925,1,620⟩,
  ⟨42926,42926,1,618⟩, ⟨42928,42928,1,670⟩, ⟨42929,42929,1,647⟩, ⟨42930,42930,1,669⟩,
  ⟨42931,42931,1,43859⟩, ⟨42932,42946,2,42933⟩, ⟨42948,42948,1,42900⟩, ⟨42949,42949,1,642⟩,
  ⟨42950,42950,1,7566⟩, ⟨42951,42953,2,42952⟩, ⟨42960,42960,1,42961⟩, ⟨42966,42968,2,42967⟩,
  ⟨42997,42997,1,42998⟩, ⟨43888,43967,1,5024⟩, ⟨65313,65338,1,65345⟩, ⟨66560,66599,1,66600⟩,
  ⟨66736,66771,1,66776⟩, ⟨66928,66964,2,66967⟩, ⟨66929,66937,2,66968⟩, ⟨66941,66953,2,66980⟩,
  ⟨66957,66961,2,66996⟩, ⟨66965,66965,1,67004⟩, ⟨68736,68786,1,68800⟩, ⟨71840,71871,1,71872⟩,
  ⟨93760,93791,1,93792⟩, ⟨125184,125217,1,125218⟩]

def specialFolds : List (Nat × List Nat) := [
  (223,[115,115]), (304,[105,775]), (329,[700,110]), (496,[106,780]), (912,[953,776,769]),
  (944,[965,776,769]), (1415,[1381,1410]), (7830,[104,817]), (7831,[116,776]), (7832,[119,778]),
  (7833,[121,778]), (7834,[97,702]), (7838,[115,115]), (8016,[965,787]), (8018,[965,787,768]),
  (8020,[965,787,769]), (8022,[965,787,834]), (8064,[7936,953]), (8065,[7937,953]),
  (8066,[7938,953]), (8067,[7939,953]), (8068,[7940,953]), (8069,[7941,953]), (8070,[7942,953]),
  (8071,[7943,953]), (8072,[7936,953]), (8073,[7937,953]), (8074,[7938,953]), (8075,[7939,953]),
  (8076,[7940,953]), (8077,[7941,953]), (8078,[7942,953]), (8079,[7943,953]), (8080,[7968,953]),
  (8081,[7969,953]), (8082,[7970,953]), (8083,[7971,953]), (8084,[7972,953]), (8085,[7973,953]),
  (8086,[7974,953]), (8087,[7975,953]), (8088,[7968,953]), (8089,[7969,953]), (8090,[7970,953]),
  (8091,[7971,953]), (8092,[7972,953]), (8093,[7973,953]), (8094,[7974,953]), (8095,[7975,953]),
  (8096,[8032,953]), (8097,[8033,953]), (8098,[8034,953]), (8099,[8035,953]), (8100,[8036,953]),
  (8101,[8037,953]), (8102,[8038,953]), (8103,[8039,953]), (8104,[8032,953]), (8105,[8033,953]),
  (8106,[8034,953]), (8107,[8035,953]), (8108,[8036,953]), (8109,[8037,953]), (8110,[8038,953]),
  (8111,[8039,953]), (8114,[8048,953]), (8115,[945,953]), (8116,[940,953]), (8118,[945,834]),
  (8119,[945,834,953]), (8124,[945,953]), (8130,[8052,953]), (8131,[951,953]), (8132,[942,953]),
  (8134,[951,834]), (8135,[951,834,953]), (8140,[951,953]), (8146,[953,776,768]),
  (8147,[953,776,769]), (8150,[953,834]), (8151,[953,776,834]), (8162,[965,776,768]),
  (8163,[965,776,769]), (8164,[961,787]), (8166,[965,834]), (8167,[965,776,834]), (8178,[8060,953]),
  (8179,[969,953]), (8180,[974,953]), (8182,[969,834]), (8183,[969,834,953]), (8188,[969,953]),
  (64256,[102,102]), (64257,[102,105]), (64258,[102,108]), (64259,[102,102,105]),
  (64260,[102,102,108]), (64261,[115,116]), (64262,[115,116]), (64275,[1396,1398]),
  (64276,[1396,1381]), (64277,[1396,1387]), (64278,[1406,1398]), (64279,[1396,1389])]

/-- What one character folds to. -/
def casefoldChar (c : Char) : List Char :=
  match specialFolds.lookup c.toNat with
  | some targets => targets.map Char.ofNat
  | none =>
    match foldRanges.find? (·.contains c.toNat) with
    | some r => [Char.ofNat (r.target + (c.toNat - r.first))]
    | none => [c]

def casefold (t : List Char) : List Char := t.flatMap casefoldChar

example : casefold "Straße".toList = "strasse".toList := by decide

/-! ### What the tables fold, and to what -/

def FoldRange.members (r : FoldRange) (start : Nat) : List Nat :=
  (List.range ((r.last - r.first) / r.stride + 1)).map fun i => start + r.stride * i

/-- Every character that a table folds. -/
def foldSources : List Nat :=
  foldRanges.flatMap (fun r => r.members r.first) ++ specialFolds.map (·.1)

/-- Every character that is folded to. -/
def foldTargets : List Nat :=
  foldRanges.flatMap (fun r => r.members r.target) ++ specialFolds.flatMap (·.2)

variable {ns : List Nat} {p : Char → Bool} {c : Char} {n : Nat} {t : List Char} {d : Char}

theorem FoldRange.mem_members {r : FoldRange} (h : r.contains n = true) (start : Nat) :
    start + (n - r.first) ∈ r.members start := by
  simp only [FoldRange.contains, Bool.and_eq_true, decide_eq_true_eq, beq_iff_eq] at h
  obtain ⟨⟨-, hlast⟩, hstride⟩ := h
  refine List.mem_map.mpr ⟨(n - r.first) / r.stride, List.mem_range.mpr ?_, ?_⟩
  · exact Nat.lt_succ_of_le (Nat.div_le_div_right (Nat.sub_le_sub_right hlast _))
  · rw [Nat.mul_div_cancel' (Nat.dvd_of_mod_eq_zero hstride)]

/-- The set of numbers in a list, as the bits of one number. -/
def maskOf (ns : List Nat) : Nat := ns.foldr (fun n mask => mask ||| 1 <<< n) 0

theorem testBit_maskOf (h : n ∈ ns) : (maskOf ns).testBit n = true := by
  induction ns with
  | nil => cases h
  | cons m rest ih =>
    show (maskOf rest ||| 1 <<< m).testBit n = true
    rw [Nat.testBit_or, Bool.or_eq_true]
    rcases List.mem_cons.mp h with rfl | hrest
    · exact .inr (by simp)
    · exact .inl (ih hrest)

theorem disjoint_of_masks {ms : List Nat} (h : maskOf ns &&& maskOf ms = 0) (hn : n ∈ ns) :
    n ∉ ms := by
  intro hm
  have hboth : (maskOf ns &&& maskOf ms).testBit n = true := by
    rw [Nat.testBit_and, testBit_maskOf hn, testBit_maskOf hm, Bool.and_self]
  simp [h] at hboth

/-- **No table folds what a table folds to.** -/
theorem foldTargets_folded (h : n ∈ foldTargets) : n ∉ foldSources :=
  disjoint_of_masks (by decide +kernel) h

theorem foldTargets_valid : foldTargets.all (fun n => decide n.isValidChar) = true := by
  decide +kernel

theorem toNat_of_mem_foldTargets (h : n ∈ foldTargets) : (Char.ofNat n).toNat = n := by
  have hvalid : n.isValidChar := of_decide_eq_true (List.all_eq_true.mp foldTargets_valid n h)
  rw [Char.ofNat, dif_pos hvalid]
  rfl

/-! ### Folding is idempotent -/

theorem lookup_mem {α β : Type} [BEq α] [LawfulBEq α] {l : List (α × β)} {a : α} {b : β}
    (h : l.lookup a = some b) : (a, b) ∈ l := by
  obtain ⟨before, after, rfl, -⟩ := List.lookup_eq_some_iff.mp h
  exact List.mem_append_right _ List.mem_cons_self

/-- A character that neither table folds is left alone. -/
theorem casefoldChar_of_not_mem (h : c.toNat ∉ foldSources) : casefoldChar c = [c] := by
  unfold casefoldChar
  split
  · rename_i targets hlookup
    refine absurd (List.mem_append_right _ ?_) h
    exact List.mem_map.mpr ⟨(c.toNat, targets), lookup_mem hlookup, rfl⟩
  · split
    · rename_i r hfind
      have hc : r.contains c.toNat = true := by simpa using List.find?_some hfind
      refine absurd (List.mem_append_left _ ?_) h
      refine List.mem_flatMap.mpr ⟨r, List.mem_of_find?_eq_some hfind, ?_⟩
      have hfirst : r.first ≤ c.toNat := by
        simp only [FoldRange.contains, Bool.and_eq_true, decide_eq_true_eq] at hc
        exact hc.1.1
      have hmem := FoldRange.mem_members hc r.first
      rwa [Nat.add_sub_cancel' hfirst] at hmem
    · rfl

/-- What a character folds to is one of the targets, if the character folds at all. -/
theorem mem_casefoldChar (h : d ∈ casefoldChar c) :
    casefoldChar c = [c] ∨ ∃ n ∈ foldTargets, d = Char.ofNat n := by
  unfold casefoldChar at h ⊢
  split at h
  · rename_i targets hlookup
    obtain ⟨n, hn, rfl⟩ := List.mem_map.mp h
    refine .inr ⟨n, List.mem_append_right _ ?_, rfl⟩
    exact List.mem_flatMap.mpr ⟨(c.toNat, targets), lookup_mem hlookup, hn⟩
  · split at h
    · rename_i r hfind
      have hc : r.contains c.toNat = true := by simpa using List.find?_some hfind
      refine .inr ⟨_, List.mem_append_left _ ?_, List.mem_singleton.mp h⟩
      exact List.mem_flatMap.mpr
        ⟨r, List.mem_of_find?_eq_some hfind, FoldRange.mem_members hc r.target⟩
    · exact .inl rfl

theorem casefoldChar_of_mem (h : d ∈ casefoldChar c) : casefoldChar d = [d] := by
  rcases mem_casefoldChar h with hfix | ⟨n, hn, rfl⟩
  · rw [hfix, List.mem_singleton] at h
    rw [h, hfix]
  · apply casefoldChar_of_not_mem
    rw [toNat_of_mem_foldTargets hn]
    exact foldTargets_folded hn

/-- A text of characters that are folded is folded. -/
theorem casefold_of_fixed (h : ∀ c ∈ t, casefoldChar c = [c]) : casefold t = t := by
  induction t with
  | nil => rfl
  | cons c rest ih =>
    show casefoldChar c ++ casefold rest = c :: rest
    rw [h c List.mem_cons_self, ih fun d hd => h d (List.mem_cons_of_mem c hd)]
    rfl

/-- **Folding twice is folding once.** -/
theorem casefold_casefold (t : List Char) : casefold (casefold t) = casefold t := by
  apply casefold_of_fixed
  intro d hd
  obtain ⟨c, -, hmem⟩ := List.mem_flatMap.mp hd
  exact casefoldChar_of_mem hmem

/-! ### Folding and stripping -/

theorem specialFolds_ne_nil : specialFolds.all (fun e => !e.2.isEmpty) = true := by decide

theorem casefoldChar_ne_nil (c : Char) : casefoldChar c ≠ [] := by
  unfold casefoldChar
  split
  · rename_i targets hlookup
    have hne := List.all_eq_true.mp specialFolds_ne_nil _ (lookup_mem hlookup)
    intro hnil
    simp [List.map_eq_nil_iff.mp hnil] at hne
  · split <;> simp

/-- Folding makes no character of a class that nothing is folded to. -/
theorem casefoldChar_avoids (hp : ∀ n ∈ foldTargets, p (Char.ofNat n) = false) (hc : p c = false)
    (hd : d ∈ casefoldChar c) : p d = false := by
  rcases mem_casefoldChar hd with hfix | ⟨n, hn, rfl⟩
  · rw [hfix, List.mem_singleton] at hd
    rw [hd, hc]
  · exact hp n hn

/-- **A stripped text stays stripped when it is folded.** -/
theorem bare_casefold (hp : ∀ n ∈ foldTargets, p (Char.ofNat n) = false) (h : Bare p t) :
    Bare p (casefold t) where
  first := by
    cases t with
    | nil => simp [casefold]
    | cons c rest =>
      intro d hd
      have heq : casefold (c :: rest) = casefoldChar c ++ casefold rest := rfl
      rw [heq, List.head?_append_of_ne_nil _ (casefoldChar_ne_nil c)] at hd
      exact casefoldChar_avoids hp (h.first c rfl) (List.mem_of_mem_head? hd)
  last := by
    induction t using List.reverseRecOn with
    | nil => simp [casefold]
    | append_singleton rest c _ =>
      intro d hd
      have heq : casefold (rest ++ [c]) = casefold rest ++ casefoldChar c := by
        simp [casefold, List.flatMap_append]
      rw [heq, List.getLast?_append_of_ne_nil _ (casefoldChar_ne_nil c)] at hd
      exact casefoldChar_avoids hp (h.last c (by simp)) (List.mem_of_getLast? hd)

end Text
