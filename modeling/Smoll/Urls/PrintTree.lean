/-
# `Smoll.Urls.PrintTree` — `print_tree` of `url_to_tree.py`

The parts of the paths go into a dictionary of dictionaries, and that is
printed, one key a line behind four blanks a level:

    a/b, a/c, d         a/
                            b/
                            c/
                        d/

`print_node` calls itself a level deeper for each of the dictionaries, and the
interpreter's stack has room for so many calls and no more.  `frames` is what
there is room for when it is called first; a call for which there is none is a
`RecursionError`, and what has been printed by then is printed.

`readTree` reads such a text back by its indentation.  If there was room, what
it finds is the dictionary (`readTree_printTree`), and so the tree of the
prefixes of the paths (`print_tree_faithful`).
-/
import Smoll.Lib.Lines
import Smoll.Lib.Outline
import Smoll.Ips.Expand

namespace Smoll.UrlTree

open Trie Lines ExpandIps Ipaddress

/-! ## The source -/

/-- `path.strip().split('/')` -/
def parts (path : Text) : List Text := (strip path).splitOn '/'

/-- The two loops; the inner one walks down from `tree`, which is `KeyTree.add`. -/
def grow (paths : List Text) : KeyTree Text :=
  paths.foldl (fun tree path => tree.add (parts path)) .nil

inductive IndexError where
  | listIndexOutOfRange
  deriving DecidableEq, Repr

inductive Error where
  | indexError (e : IndexError)
  | recursionError
  deriving DecidableEq, Repr

/-- What has been printed in the end, and the error that ended it, if one did. -/
structure Output where
  text : Text
  error : Option Error
  deriving DecidableEq, Repr

namespace Output

def nothing : Output := ⟨[], none⟩

def print (line : Text) : Output := ⟨line ++ ['\n'], none⟩

def raised (e : Error) : Output := ⟨[], some e⟩

/-- One statement behind another, unless an error has ended the first. -/
def andThen (first second : Output) : Output :=
  match first.error with
  | none => ⟨first.text ++ second.text, second.error⟩
  | some _ => first

end Output

/-- A call, with room for `frames` of them, itself included. -/
def call (frames : Nat) (body : Nat → Output) : Output :=
  match frames with
  | 0 => .raised .recursionError
  | frames + 1 => body frames

/-- The loop of `print_node`, in a call with room for `frames` more in it. -/
def printItems : Nat → KeyTree Text → Text → Output
  | _, .nil, _ => .nothing
  | frames, .node key subnode rest, indent =>
      (Output.print (indent ++ key ++ ['/'])).andThen <|
        (call frames fun frames => printItems frames subnode (indent ++ [' ', ' ', ' ', ' '])).andThen
          (printItems frames rest indent)

def printNode (frames : Nat) (node : KeyTree Text) (indent : Text) : Output :=
  call frames fun frames => printItems frames node indent

def printTree (frames : Nat) (paths : List Text) : Output := printNode frames (grow paths) []

/-! ## Reading it back -/

/-- The level of a line and its label. -/
def readLine (line : Text) : Nat × Text :=
  ((line.takeWhile (· = ' ')).length / 4, (line.dropWhile (· = ' ')).dropLast)

def readTree (text : Text) : KeyTree Text := .ofOutline 0 ((lines '\n' text).map readLine)

/-- What the tree of some paths is to be. -/
structure Faithful (paths : List Text) (tree : KeyTree Text) : Prop where
  nodes : ∀ p, p ∈ tree.paths ↔ p ≠ [] ∧ ∃ path ∈ paths, p <+: path.splitOn '/'
  once : tree.paths.Nodup
  siblings : ∀ p, (tree.descend p).keys = KeyTree.following p (paths.map fun path => path.splitOn '/')

/-- Room for a call for each segment of a path, and for one below. -/
def Fits (frames : Nat) (paths : List Text) : Prop :=
  0 < frames ∧ ∀ path ∈ paths, (path.splitOn '/').length < frames

/-- No whitespace in the segments. -/
def Plain (path : Text) : Prop := ∀ part ∈ path.splitOn '/', ∀ c ∈ part, isSpace c = false

/-! ## Paths without whitespace -/

theorem mem_intercalate {c sep : Char} {ls : List Text} (h : c ∈ [sep].intercalate ls) :
    c = sep ∨ ∃ l ∈ ls, c ∈ l := by
  induction ls with
  | nil => cases h
  | cons l ls ih =>
      by_cases hls : ls = []
      · subst hls
        rw [List.intercalate_singleton] at h
        exact .inr ⟨l, List.mem_cons_self .., h⟩
      · rw [List.intercalate_cons_of_ne_nil hls, List.mem_append, List.mem_append] at h
        rcases h with (h | h) | h
        · exact .inr ⟨l, List.mem_cons_self .., h⟩
        · exact .inl (List.mem_singleton.mp h)
        · rcases ih h with hsep | ⟨l', hl', hc⟩
          · exact .inl hsep
          · exact .inr ⟨l', List.mem_cons_of_mem l hl', hc⟩

theorem Plain.isSpace_eq_false {path : Text} (h : Plain path) {c : Char} (hc : c ∈ path) :
    isSpace c = false := by
  rw [← @List.intercalate_splitOn Char path _ _ '/'] at hc
  rcases mem_intercalate hc with rfl | ⟨part, hpart, hc⟩
  · rfl
  · exact h part hpart c hc

/-- There is nothing to strip. -/
theorem Plain.parts_eq {path : Text} (h : Plain path) : parts path = path.splitOn '/' := by
  have hdrop : path.dropWhile isSpace = path := by
    rw [List.dropWhile_eq_self_iff]
    intro hpos
    rw [h.isSpace_eq_false (List.getElem_mem hpos)]
    exact Bool.false_ne_true
  have hrdrop : path.rdropWhile isSpace = path := by
    rw [List.rdropWhile_eq_self_iff]
    intro hne
    rw [h.isSpace_eq_false (List.getLast_mem hne)]
    exact Bool.false_ne_true
  rw [parts, strip, hdrop, hrdrop]

theorem grow_eq (paths : List Text) : grow paths = .ofPaths (paths.map parts) := by
  rw [KeyTree.ofPaths, List.foldl_map]
  rfl

theorem map_parts {paths : List Text} (h : ∀ path ∈ paths, Plain path) :
    paths.map parts = paths.map fun path => path.splitOn '/' :=
  List.map_congr_left fun path hpath => (h path hpath).parts_eq

theorem faithful_grow {paths : List Text} (h : ∀ path ∈ paths, Plain path) :
    Faithful paths (grow paths) := by
  rw [grow_eq, map_parts h]
  constructor
  · intro p
    rw [KeyTree.mem_paths_ofPaths]
    refine and_congr_right fun _ => ?_
    constructor
    · rintro ⟨ps, hps, hpre⟩
      rcases List.mem_map.mp hps with ⟨path, hpath, rfl⟩
      exact ⟨path, hpath, hpre⟩
    · rintro ⟨path, hpath, hpre⟩
      exact ⟨_, List.mem_map_of_mem hpath, hpre⟩
  · exact (KeyTree.wf_ofPaths _).nodup_paths
  · intro p
    exact KeyTree.keys_descend_ofPaths _ p

/-- A path that was there already. -/
theorem grow_repeat {before : List Text} {path : Text} (hpath : path ∈ before)
    (behind : List Text) : grow (before ++ path :: behind) = grow (before ++ behind) := by
  rw [grow_eq, grow_eq, List.map_append, List.map_append, List.map_cons]
  exact KeyTree.ofPaths_repeat (List.mem_map_of_mem hpath) _

/-! ## A line -/

def writeLine (line : Nat × Text) : Text := List.replicate (4 * line.1) ' ' ++ line.2 ++ ['/']

def written (ls : List (Nat × Text)) : Text := ls.flatMap fun line => writeLine line ++ ['\n']

theorem written_append (ls ls' : List (Nat × Text)) :
    written (ls ++ ls') = written ls ++ written ls' := List.flatMap_append

theorem written_cons (depth : Nat) (key : Text) (ls : List (Nat × Text)) :
    written ((depth, key) :: ls) =
      List.replicate (4 * depth) ' ' ++ key ++ ['/'] ++ ['\n'] ++ written ls := List.flatMap_cons

/-- The lines are printed up to the first one below which there is no room for a call. -/
theorem printItems_eq (node : KeyTree Text) :
    ∀ frames depth, printItems frames node (List.replicate (4 * depth) ' ') =
      { text := written (KeyTree.through (depth + frames) (KeyTree.outline depth node))
        error := if ∃ line ∈ KeyTree.outline depth node, line.1 = depth + frames then
            some .recursionError else none } := by
  induction node with
  | nil =>
      intro frames depth
      rfl
  | node key subnode rest ihsub ihrest =>
      intro frames depth
      have hlevel : List.replicate (4 * depth) ' ' ++ [' ', ' ', ' ', ' '] =
          List.replicate (4 * (depth + 1)) ' ' := by
        rw [Nat.mul_succ, ← List.replicate_append_replicate]
        rfl
      rw [printItems, hlevel, KeyTree.outline, KeyTree.through]
      simp only [List.exists_mem_cons_iff]
      cases frames with
      | zero =>
          have hdepth : depth = depth + 0 := rfl
          rw [if_pos hdepth, if_pos (.inl hdepth), written_cons]
          rfl
      | succ frames =>
          have hne : ¬ depth = depth + (frames + 1) := by omega
          have hsum : depth + 1 + frames = depth + (frames + 1) := by omega
          have hsub := ihsub frames (depth + 1)
          have hrest := ihrest (frames + 1) depth
          rw [hsum] at hsub
          rw [if_neg hne, written_cons]
          simp only [call, hsub, hrest, Output.print, Output.andThen, hne, false_or]
          by_cases hdeep : ∃ line ∈ KeyTree.outline (depth + 1) subnode, line.1 = depth + (frames + 1)
          · have happend : ∃ line ∈ KeyTree.outline (depth + 1) subnode ++ KeyTree.outline depth rest,
                line.1 = depth + (frames + 1) := by
              rcases hdeep with ⟨line, hline, hdepth⟩
              exact ⟨line, List.mem_append_left _ hline, hdepth⟩
            rw [if_pos hdeep, if_pos happend, KeyTree.through_append_of_exists hdeep]
          · have happend : (∃ line ∈ KeyTree.outline (depth + 1) subnode ++
                KeyTree.outline depth rest, line.1 = depth + (frames + 1)) ↔
                ∃ line ∈ KeyTree.outline depth rest, line.1 = depth + (frames + 1) := by
              simp only [List.mem_append, or_and_right, exists_or, hdeep, false_or]
            rw [if_neg hdeep, KeyTree.through_append_of_not_exists hdeep, written_append,
              KeyTree.through_eq_self hdeep]
            simp only [happend, List.append_assoc]

/-- A path with more segments than that. -/
def Deep (frames : Nat) (paths : List Text) : Prop :=
  ∃ path ∈ paths, frames < (parts path).length

theorem exists_level_iff (frames : Nat) (paths : List Text) :
    (∃ line ∈ KeyTree.outline 0 (grow paths), line.1 = frames) ↔ Deep frames paths := by
  have hlevel := @KeyTree.exists_level_outline Text (grow paths) 0 frames
  rw [Nat.zero_add] at hlevel
  rw [hlevel, grow_eq]
  simp only [KeyTree.mem_paths_ofPaths]
  constructor
  · rintro ⟨p, ⟨_, ps, hps, hpre⟩, hlength⟩
    rcases List.mem_map.mp hps with ⟨path, hpath, rfl⟩
    refine ⟨path, hpath, Nat.lt_of_succ_le ?_⟩
    rw [Nat.succ_eq_add_one, ← hlength]
    exact hpre.length_le
  · rintro ⟨path, hpath, hlength⟩
    have htake : ((parts path).take (frames + 1)).length = frames + 1 :=
      List.length_take_of_le hlength
    refine ⟨(parts path).take (frames + 1), ⟨?_, parts path, List.mem_map_of_mem hpath,
      List.take_prefix _ _⟩, htake⟩
    exact List.ne_nil_of_length_eq_add_one htake

theorem text_printTree (frames : Nat) (paths : List Text) :
    (printTree (frames + 1) paths).text =
      written (KeyTree.through frames (KeyTree.outline 0 (grow paths))) := by
  have h := printItems_eq (grow paths) frames 0
  rw [Nat.zero_add] at h
  exact congrArg Output.text h

theorem error_printTree (frames : Nat) (paths : List Text) :
    (printTree (frames + 1) paths).error = none ∧ ¬ Deep frames paths ∨
      (printTree (frames + 1) paths).error = some .recursionError ∧ Deep frames paths := by
  have h := congrArg Output.error (printItems_eq (grow paths) frames 0)
  rw [Nat.zero_add] at h
  by_cases hdeep : ∃ line ∈ KeyTree.outline 0 (grow paths), line.1 = frames
  · exact .inr ⟨h.trans (if_pos hdeep), (exists_level_iff frames paths).mp hdeep⟩
  · exact .inl ⟨h.trans (if_neg hdeep), fun hd => hdeep ((exists_level_iff frames paths).mpr hd)⟩

/-- Blanks stand only in front of the label. -/
theorem readLine_writeLine {depth : Nat} {key : Text} (hkey : ∀ c ∈ key, isSpace c = false) :
    readLine (writeLine (depth, key)) = (depth, key) := by
  have hblank : ∀ c ∈ List.replicate (4 * depth) ' ', decide (c = ' ') = true := by
    intro c hc
    exact decide_eq_true (List.eq_of_mem_replicate hc)
  have hlabel : ∃ c label, key ++ ['/'] = c :: label ∧ ¬ decide (c = ' ') = true := by
    cases key with
    | nil => exact ⟨'/', [], rfl, by decide⟩
    | cons c key =>
        refine ⟨c, key ++ ['/'], rfl, fun hc => ?_⟩
        have hspace := hkey c (List.mem_cons_self ..)
        rw [of_decide_eq_true hc] at hspace
        cases hspace
  rcases hlabel with ⟨c, label, heq, hc⟩
  have htake : (key ++ ['/']).takeWhile (· = ' ') = [] := by
    rw [heq]
    exact List.takeWhile_cons_of_neg hc
  have hdrop : (key ++ ['/']).dropWhile (· = ' ') = key ++ ['/'] := by
    rw [heq]
    exact List.dropWhile_cons_of_neg hc
  rw [readLine, writeLine, List.append_assoc, List.takeWhile_append_of_pos hblank,
    List.dropWhile_append_of_pos hblank, htake, hdrop, List.append_nil, List.length_replicate,
    Nat.mul_div_cancel_left depth (by decide), List.dropLast_concat]

theorem newline_not_mem_writeLine {depth : Nat} {key : Text}
    (hkey : ∀ c ∈ key, isSpace c = false) : '\n' ∉ writeLine (depth, key) := by
  intro h
  rw [writeLine, List.mem_append, List.mem_append] at h
  rcases h with (h | h) | h
  · exact absurd (List.eq_of_mem_replicate h) (by decide)
  · cases hkey _ h
  · exact absurd (List.mem_singleton.mp h) (by decide)

/-! ## The whole text -/

theorem fits_succ_iff {frames : Nat} {paths : List Text} (h : ∀ path ∈ paths, Plain path) :
    Fits (frames + 1) paths ↔ ¬ Deep frames paths := by
  constructor
  · rintro ⟨_, hfits⟩ ⟨path, hpath, hdeep⟩
    rw [(h path hpath).parts_eq] at hdeep
    exact Nat.not_lt_of_le hdeep (hfits path hpath)
  · intro hdeep
    refine ⟨Nat.succ_pos frames, fun path hpath => Nat.lt_succ_of_le (Nat.le_of_not_lt fun hlt => ?_)⟩
    rw [← (h path hpath).parts_eq] at hlt
    exact hdeep ⟨path, hpath, hlt⟩

theorem error_eq (frames : Nat) (paths : List Text) :
    (printTree frames paths).error = none ∨
      (printTree frames paths).error = some .recursionError := by
  cases frames with
  | zero => exact .inr rfl
  | succ frames => exact (error_printTree frames paths).imp And.left And.left

/-- It returns exactly if there is room for the calls. -/
theorem returns_iff {paths : List Text} (h : ∀ path ∈ paths, Plain path) (frames : Nat) :
    (printTree frames paths).error = none ↔ Fits frames paths := by
  cases frames with
  | zero => exact iff_of_false (Option.some_ne_none _) fun hfits => Nat.lt_irrefl 0 hfits.1
  | succ frames =>
      rw [fits_succ_iff h]
      rcases error_printTree frames paths with ⟨hnone, hdeep⟩ | ⟨hraised, hdeep⟩
      · exact iff_of_true hnone hdeep
      · rw [hraised]
        exact iff_of_false (Option.some_ne_none _) (not_not_intro hdeep)

theorem Fits.text {frames : Nat} {paths : List Text} (h : ∀ path ∈ paths, Plain path)
    (hfits : Fits frames paths) :
    (printTree frames paths).text = written (KeyTree.outline 0 (grow paths)) := by
  obtain ⟨frames, rfl⟩ := Nat.exists_eq_succ_of_ne_zero (Nat.ne_of_gt hfits.1)
  have hdeep := (fits_succ_iff h).mp hfits
  rw [text_printTree, KeyTree.through_eq_self fun hlevel =>
    hdeep ((exists_level_iff frames paths).mp hlevel)]

/-- Without room, a beginning of the text is printed. -/
theorem text_prefix (frames : Nat) (paths : List Text) :
    (printTree frames paths).text <+: written (KeyTree.outline 0 (grow paths)) := by
  cases frames with
  | zero => exact List.nil_prefix
  | succ frames =>
      rcases KeyTree.through_prefix frames (KeyTree.outline 0 (grow paths)) with ⟨cut, hcut⟩
      rw [text_printTree]
      refine ⟨written cut, ?_⟩
      rw [← written_append, hcut]

theorem raised_of_not_fits {frames : Nat} {paths : List Text} (h : ∀ path ∈ paths, Plain path)
    (hfits : ¬ Fits frames paths) : (printTree frames paths).error = some .recursionError ∧
      ∀ frames', Fits frames' paths →
        (printTree frames paths).text <+: (printTree frames' paths).text := by
  refine ⟨(error_eq frames paths).resolve_left fun hnone => hfits ((returns_iff h frames).mp hnone), ?_⟩
  intro frames' hfits'
  rw [hfits'.text h]
  exact text_prefix frames paths

/-- No whitespace in a label. -/
theorem label_plain {paths : List Text} (h : ∀ path ∈ paths, Plain path) {line : Nat × Text}
    (hline : line ∈ KeyTree.outline 0 (grow paths)) : ∀ c ∈ line.2, isSpace c = false := by
  rcases KeyTree.exists_of_mem_outline hline with ⟨p, hp, hkey⟩
  rcases ((faithful_grow h).nodes p).mp hp with ⟨_, path, hpath, hpre⟩
  exact h path hpath line.2 (hpre.mem hkey)

/-- Some of the lines, read one by one. -/
theorem lines_written {paths : List Text} (h : ∀ path ∈ paths, Plain path)
    {ls : List (Nat × Text)} (hls : ls <+: KeyTree.outline 0 (grow paths)) :
    lines '\n' (written ls) = ls.map writeLine := by
  have hwritten : written ls = (ls.map writeLine).flatMap fun line => line ++ ['\n'] := by
    rw [written, List.flatMap_map]
  rw [hwritten]
  refine lines_flatMap fun text htext => ?_
  rcases List.mem_map.mp htext with ⟨line, hline, rfl⟩
  exact newline_not_mem_writeLine (label_plain h (hls.mem hline))

theorem readTree_written {paths : List Text} (h : ∀ path ∈ paths, Plain path)
    {ls : List (Nat × Text)} (hls : ls <+: KeyTree.outline 0 (grow paths)) :
    readTree (written ls) = .ofOutline 0 ls := by
  have hlines : (ls.map writeLine).map readLine = ls := by
    rw [List.map_map]
    refine (List.map_congr_left fun line hline => ?_).trans (List.map_id _)
    exact readLine_writeLine (label_plain h (hls.mem hline))
  rw [readTree, lines_written h hls, hlines]

theorem readTree_printTree {frames : Nat} {paths : List Text} (h : ∀ path ∈ paths, Plain path)
    (hfits : Fits frames paths) : readTree (printTree frames paths).text = grow paths := by
  rw [hfits.text h, readTree_written h (List.prefix_refl _), KeyTree.ofOutline_outline]

theorem length_lines_printTree {frames : Nat} {paths : List Text}
    (h : ∀ path ∈ paths, Plain path) (hfits : Fits frames paths) :
    (lines '\n' (printTree frames paths).text).length = (grow paths).paths.length := by
  rw [hfits.text h, lines_written h (List.prefix_refl _), List.length_map, KeyTree.length_outline]

/-- What is printed has no more levels than there were calls. -/
theorem length_le_frames {frames : Nat} {paths : List Text} (h : ∀ path ∈ paths, Plain path)
    {p : List Text} (hp : p ∈ (readTree (printTree frames paths).text).paths) :
    p.length ≤ frames := by
  cases frames with
  | zero => cases hp
  | succ frames =>
      rw [text_printTree, readTree_written h (KeyTree.through_prefix _ _)] at hp
      have hlevel : ∀ line ∈ KeyTree.through frames (KeyTree.outline 0 (grow paths)),
          line.1 < frames + 1 := fun line hline =>
        Nat.lt_succ_of_le (KeyTree.level_le_of_mem_through (Nat.zero_le frames) hline)
      have hlength := KeyTree.length_le_of_mem_ofOutline _ hlevel hp
      rwa [Nat.zero_add] at hlength

/-- **The printed tree is faithful** if there is room for the calls.  Read back, it is the tree of
the prefixes of the paths, each on a line of its own, in order of first appearance; so the order of
the paths does not matter to what is in it, and a path that comes again changes nothing.  Without
room it ends with a `RecursionError`, and a beginning of that text is printed. -/
theorem print_tree_faithful (frames : Nat) (paths : List Text) (h : ∀ path ∈ paths, Plain path) :
    ((printTree frames paths).error = none ↔ Fits frames paths) ∧
      (Fits frames paths →
        Faithful paths (readTree (printTree frames paths).text) ∧
        (lines '\n' (printTree frames paths).text).length =
          (readTree (printTree frames paths).text).paths.length ∧
        (∀ paths', (∀ path, path ∈ paths' ↔ path ∈ paths) →
          (printTree frames paths').error = none ∧
          ∀ p, p ∈ (readTree (printTree frames paths').text).paths ↔
            p ∈ (readTree (printTree frames paths).text).paths) ∧
        ∀ before path behind, paths = before ++ path :: behind → path ∈ before →
          printTree frames paths = printTree frames (before ++ behind)) ∧
      (¬ Fits frames paths → (printTree frames paths).error = some .recursionError ∧
        ∀ frames', Fits frames' paths →
          (printTree frames paths).text <+: (printTree frames' paths).text) := by
  refine ⟨returns_iff h frames, fun hfits => ?_, raised_of_not_fits h⟩
  have hread := readTree_printTree h hfits
  refine ⟨?_, ?_, ?_, ?_⟩
  · rw [hread]
    exact faithful_grow h
  · rw [hread]
    exact length_lines_printTree h hfits
  · intro paths' hpaths
    have h' : ∀ path ∈ paths', Plain path := fun path hpath => h path ((hpaths path).mp hpath)
    have hfits' : Fits frames paths' :=
      ⟨hfits.1, fun path hpath => hfits.2 path ((hpaths path).mp hpath)⟩
    refine ⟨(returns_iff h' frames).mpr hfits', fun p => ?_⟩
    rw [hread, readTree_printTree h' hfits', (faithful_grow h).nodes, (faithful_grow h').nodes]
    refine and_congr_right fun _ => exists_congr fun path => and_congr_left fun _ => hpaths path
  · rintro before path behind rfl hpath
    rw [printTree, printTree, grow_repeat hpath]

def samplePaths : List Text :=
  ["a/b".toList, "a/c".toList, "d".toList, "a//b".toList, "".toList, "a/b".toList]

/-- Common prefixes, empty segments, and a path twice. -/
theorem print_tree_sample :
    Faithful samplePaths (readTree (printTree 1000 samplePaths).text) ∧
      printTree 1000 samplePaths =
        ⟨"a/\n    b/\n    c/\n    /\n        b/\nd/\n/\n".toList, none⟩ := by
  have hplain : ∀ path ∈ samplePaths, Plain path := by
    have hall : (samplePaths.all fun path => (path.splitOn '/').all fun part =>
        part.all fun c => !isSpace c) = true := rfl
    intro path hpath part hpart c hc
    have hpath' := List.all_eq_true.mp (List.all_eq_true.mp hall path hpath) part hpart
    exact Bool.eq_false_iff.mpr fun hspace => by
      have hc' := List.all_eq_true.mp hpath' c hc
      rw [hspace] at hc'
      cases hc'
  obtain ⟨hreturns, hfaithful, _⟩ := print_tree_faithful 1000 samplePaths hplain
  exact ⟨(hfaithful (hreturns.mp rfl)).1, rfl⟩

/-- A path of so many segments. -/
def deepPath (segments : Nat) : Text := ['/'].intercalate (List.replicate segments ['a'])

theorem splitOn_deepPath {segments : Nat} (h : segments ≠ 0) :
    (deepPath segments).splitOn '/' = List.replicate segments ['a'] := by
  refine List.splitOn_intercalate '/' (fun part hpart => ?_) (by rwa [Ne, List.replicate_eq_nil_iff])
  rw [List.eq_of_mem_replicate hpart, List.mem_singleton]
  decide

/-- One path, deeper than there is room for. -/
theorem not_print_tree : ¬ ∀ paths : List Text, (∀ path ∈ paths, Plain path) →
    Faithful paths (readTree (printTree 1000 paths).text) := by
  intro h
  have hsegments := @splitOn_deepPath 1100 (Nat.succ_ne_zero _)
  have hplain : ∀ path ∈ [deepPath 1100], Plain path := by
    intro path hpath part hpart c hc
    rw [List.mem_singleton.mp hpath, hsegments] at hpart
    rw [List.eq_of_mem_replicate hpart] at hc
    rw [List.mem_singleton.mp hc]
    rfl
  have hnode := ((h _ hplain).nodes (List.replicate 1100 ['a'])).mpr
    ⟨List.cons_ne_nil _ _, deepPath 1100, List.mem_singleton_self _, hsegments ▸ List.prefix_refl _⟩
  have hlength := length_le_frames hplain hnode
  rw [List.length_replicate] at hlength
  exact absurd hlength (by decide)

end Smoll.UrlTree
