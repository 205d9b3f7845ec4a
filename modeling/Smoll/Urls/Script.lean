/-
# `Smoll.Urls.Script` — `url_to_tree.py` from its input to its output

The script reads URLs line by line, takes the path out of each and prints the
tree of the paths:

    http://a/b/c        [1] of split('//')   a/b/c        path   b/c
    http://a            …                    a                   (empty)
    http://a/b//c/d     …                    a/b                 b
    a/b/c               no [1]: IndexError

`paths` is a generator, so a line without `//` is met while `print_tree` builds
the dictionary, before anything is printed.  `url_to_tree_faithful` is what the
script does on any input whose URLs have no whitespace in them, with room for
any number of calls of `print_node`.
-/
import Smoll.Lib.Split
import Smoll.Urls.PrintTree

namespace Smoll.UrlTree

open Trie Lines ExpandIps Ipaddress Split

/-! ## The source -/

/-- `list[i]` -/
def getItem {α : Type} (list : List α) (i : Nat) : Except IndexError α :=
  match list[i]? with
  | none => .error .listIndexOutOfRange
  | some item => .ok item

/-- `url.split('//')[1].split('/', 1)[1] if '/' in url.split('//')[1] else ''` -/
def pathOf (url : Text) : Except IndexError Text := do
  let located ← getItem (split '/' ['/'] url) 1
  if '/' ∈ located then
    getItem (splitMaxOne '/' [] located) 1
  else
    pure []

/-- The generators `urls` and `paths`. -/
def readPaths : List Text → Except IndexError (List Text)
  | [] => pure []
  | line :: stdin => do
      let path ← pathOf (strip line)
      let paths ← readPaths stdin
      pure (path :: paths)

/-- The script.  Nothing has been printed when a line ends it. -/
def urlToTree (frames : Nat) (stdin : List Text) : Output :=
  match readPaths stdin with
  | .error e => .raised (.indexError e)
  | .ok paths => printTree frames paths

/-! ## What the path of a URL is to be -/

/-- What stands behind the first `//`, up to the next one if there is one. -/
def Located (url located : Text) : Prop :=
  ∃ scheme behind, First ['/', '/'] scheme url behind ∧
    (located = behind ∧ ¬ ['/', '/'] <:+: behind ∨ ∃ more, First ['/', '/'] located behind more)

/-- What stands there behind the host. -/
def IsPath (url path : Text) : Prop :=
  ∃ located, Located url located ∧
    (path = [] ∧ '/' ∉ located ∨ ∃ host, First ['/'] host located path)

/-! ## One URL -/

theorem getItem_one_split (s : Text) :
    getItem (split '/' ['/'] s) 1 =
      match splitOnce '/' ['/'] s with
      | none => .error .listIndexOutOfRange
      | some p => .ok (((splitOnce '/' ['/'] p.2).map Prod.fst).getD p.2) := by
  cases h : splitOnce '/' ['/'] s with
  | none =>
      rw [split_of_none h]
      rfl
  | some p =>
      obtain ⟨before, after⟩ := p
      have hhead := head?_split '/' ['/'] after
      rw [split_of_some h, getItem, List.getElem?_cons_succ, hhead]

theorem getItem_split_eq_ok {url located : Text} :
    getItem (split '/' ['/'] url) 1 = .ok located ↔ Located url located := by
  rw [getItem_one_split]
  constructor
  · intro h
    cases hfirst : splitOnce '/' ['/'] url with
    | none =>
        rw [hfirst] at h
        cases h
    | some p =>
        obtain ⟨scheme, behind⟩ := p
        rw [hfirst] at h
        refine ⟨scheme, behind, splitOnce_eq_some.mp hfirst, ?_⟩
        cases hnext : splitOnce '/' ['/'] behind with
        | none =>
            simp only [hnext] at h
            cases h
            exact .inl ⟨rfl, (splitOnce_eq_none behind).mp hnext⟩
        | some q =>
            simp only [hnext] at h
            cases h
            exact .inr ⟨q.2, splitOnce_eq_some.mp hnext⟩
  · rintro ⟨scheme, behind, hfirst, ⟨rfl, hlast⟩ | ⟨more, hmore⟩⟩
    · simp only [splitOnce_eq_some.mpr hfirst, (splitOnce_eq_none _).mpr hlast]
      rfl
    · simp only [splitOnce_eq_some.mpr hfirst, splitOnce_eq_some.mpr hmore]
      rfl

theorem getItem_split_eq_error {url : Text} {e : IndexError} :
    getItem (split '/' ['/'] url) 1 = .error e ↔ ¬ ['/', '/'] <:+: url := by
  rw [getItem_one_split, ← splitOnce_eq_none]
  cases e
  cases splitOnce '/' ['/'] url with
  | none => exact ⟨fun _ => rfl, fun _ => rfl⟩
  | some p => exact ⟨nofun, nofun⟩

theorem slash_isInfix_iff {s : Text} : ['/'] <:+: s ↔ '/' ∈ s := by
  constructor
  · rintro ⟨before, after, rfl⟩
    exact List.mem_append_left _ (List.mem_append_right _ (List.mem_singleton_self _))
  · intro h
    obtain ⟨before, after, rfl⟩ := List.append_of_mem h
    exact ⟨before, after, by rw [List.append_assoc]; rfl⟩

/-- Where there is a slash, there is something behind it. -/
theorem getItem_splitMaxOne {located : Text} (h : '/' ∈ located) :
    ∃ host path, First ['/'] host located path ∧
      getItem (splitMaxOne '/' [] located) 1 = .ok path := by
  cases hsplit : splitOnce '/' [] located with
  | none => exact absurd (slash_isInfix_iff.mpr h) ((splitOnce_eq_none located).mp hsplit)
  | some p =>
      obtain ⟨host, path⟩ := p
      refine ⟨host, path, splitOnce_eq_some.mp hsplit, ?_⟩
      rw [splitMaxOne, hsplit]
      rfl

theorem pathOf_eq_ok {url path : Text} : pathOf url = .ok path ↔ IsPath url path := by
  rw [pathOf, IsPath]
  cases hlocated : getItem (split '/' ['/'] url) 1 with
  | error e =>
      refine ⟨nofun, ?_⟩
      rintro ⟨located, hl, _⟩
      rw [getItem_split_eq_ok.mpr hl] at hlocated
      cases hlocated
  | ok located =>
      have hl := getItem_split_eq_ok.mp hlocated
      have hunique : ∀ located', Located url located' → located' = located := by
        intro located' hl'
        rw [getItem_split_eq_ok.mpr hl'] at hlocated
        exact Except.ok.inj hlocated
      show (if '/' ∈ located then getItem (splitMaxOne '/' [] located) 1 else pure []) = _ ↔ _
      by_cases hslash : '/' ∈ located
      · obtain ⟨host, rest, hfirst, hget⟩ := getItem_splitMaxOne hslash
        rw [if_pos hslash, hget]
        constructor
        · intro h
          cases h
          exact ⟨located, hl, .inr ⟨host, hfirst⟩⟩
        · rintro ⟨located', hl', ⟨_, hnone⟩ | ⟨host', hfirst'⟩⟩
          · rw [hunique located' hl'] at hnone
            exact absurd hslash hnone
          · rw [hunique located' hl'] at hfirst'
            rw [(hfirst.unique hfirst').2]
      · rw [if_neg hslash]
        constructor
        · intro h
          cases h
          exact ⟨located, hl, .inl ⟨rfl, hslash⟩⟩
        · rintro ⟨located', hl', ⟨rfl, _⟩ | ⟨host', hfirst'⟩⟩
          · rfl
          · rw [hunique located' hl'] at hfirst'
            exact absurd (slash_isInfix_iff.mp hfirst'.isInfix) hslash

theorem pathOf_eq_error {url : Text} {e : IndexError} :
    pathOf url = .error e ↔ ¬ ['/', '/'] <:+: url := by
  rw [← getItem_split_eq_error (e := e), pathOf]
  cases hlocated : getItem (split '/' ['/'] url) 1 with
  | error e' => exact ⟨id, id⟩
  | ok located =>
      refine ⟨fun h => ?_, nofun⟩
      have h : (if '/' ∈ located then getItem (splitMaxOne '/' [] located) 1 else pure []) =
          .error e := h
      by_cases hslash : '/' ∈ located
      · obtain ⟨_, path, _, hget⟩ := getItem_splitMaxOne hslash
        rw [if_pos hslash, hget] at h
        cases h
      · rw [if_neg hslash] at h
        cases h

/-! ## All lines -/

theorem mem_of_readPaths (stdin : List Text) : ∀ paths, readPaths stdin = .ok paths →
    ∀ path, path ∈ paths ↔ ∃ line ∈ stdin, IsPath (strip line) path := by
  induction stdin with
  | nil =>
      intro paths h path
      cases h
      exact ⟨nofun, fun ⟨_, hline, _⟩ => absurd hline List.not_mem_nil⟩
  | cons line stdin ih =>
      intro paths h path
      rw [readPaths] at h
      cases hfirst : pathOf (strip line) with
      | error e =>
          rw [hfirst] at h
          cases h
      | ok first =>
          rw [hfirst] at h
          cases hrest : readPaths stdin with
          | error e =>
              rw [hrest] at h
              cases h
          | ok rest =>
              rw [hrest] at h
              cases h
              rw [List.mem_cons, List.exists_mem_cons_iff, ih rest hrest, ← pathOf_eq_ok, hfirst]
              refine or_congr_left ⟨fun heq => congrArg Except.ok heq.symm, fun heq => ?_⟩
              exact (Except.ok.inj heq).symm

theorem readPaths_eq_error (stdin : List Text) (e : IndexError) : readPaths stdin = .error e ↔
    ∃ line ∈ stdin, ¬ ['/', '/'] <:+: strip line := by
  induction stdin with
  | nil => exact ⟨nofun, fun ⟨_, hline, _⟩ => absurd hline List.not_mem_nil⟩
  | cons line stdin ih =>
      rw [readPaths, List.exists_mem_cons_iff, ← ih, ← pathOf_eq_error (e := e)]
      cases pathOf (strip line) with
      | error e' =>
          cases e
          cases e'
          exact ⟨fun _ => .inl rfl, fun _ => rfl⟩
      | ok path =>
          cases readPaths stdin with
          | error e' =>
              cases e
              cases e'
              exact ⟨fun _ => .inr rfl, fun _ => rfl⟩
          | ok rest => exact ⟨nofun, fun h => h.elim nofun nofun⟩

/-! ## The whole script -/

theorem mem_of_mem_intercalate {sep c : Char} {l : Text} {ls : List Text} (hl : l ∈ ls)
    (hc : c ∈ l) : c ∈ [sep].intercalate ls := by
  induction ls with
  | nil => cases hl
  | cons l' ls ih =>
      by_cases hls : ls = []
      · subst hls
        rw [List.intercalate_singleton]
        exact List.mem_singleton.mp hl ▸ hc
      · rw [List.intercalate_cons_of_ne_nil hls, List.mem_append, List.mem_append]
        rcases List.mem_cons.mp hl with rfl | hl
        · exact .inl (.inl hc)
        · exact .inr (ih hl)

/-- The path is a part of the URL. -/
theorem IsPath.subset {url path : Text} (h : IsPath url path) {c : Char} (hc : c ∈ path) :
    c ∈ url := by
  obtain ⟨located, ⟨scheme, behind, hfirst, hlocated⟩, hpath⟩ := h
  have hmem : c ∈ located := by
    rcases hpath with ⟨rfl, _⟩ | ⟨host, hhost⟩
    · cases hc
    · rw [hhost.eq]
      exact List.mem_append_right _ (List.mem_append_right _ hc)
  have hbehind : c ∈ behind := by
    rcases hlocated with ⟨rfl, _⟩ | ⟨more, hmore⟩
    · exact hmem
    · rw [hmore.eq]
      exact List.mem_append_left _ hmem
  rw [hfirst.eq]
  exact List.mem_append_right _ (List.mem_append_right _ hbehind)

theorem IsPath.plain {url path : Text} (h : IsPath url path)
    (hurl : ∀ c ∈ url, isSpace c = false) : Plain path := by
  intro part hpart c hc
  refine hurl c (h.subset ?_)
  have hmem : c ∈ ['/'].intercalate (path.splitOn '/') := mem_of_mem_intercalate hpart hc
  rwa [List.intercalate_splitOn] at hmem

/-- Each line has a path, and there is room for it. -/
def Shallow (frames : Nat) (stdin : List Text) : Prop :=
  0 < frames ∧ (∀ line ∈ stdin, ['/', '/'] <:+: strip line) ∧
    ∀ line ∈ stdin, ∀ path, IsPath (strip line) path → (path.splitOn '/').length < frames

theorem plain_of_readPaths {stdin paths : List Text} (hpaths : readPaths stdin = .ok paths)
    (hplain : ∀ line ∈ stdin, ∀ c ∈ strip line, isSpace c = false) :
    ∀ path ∈ paths, Plain path := by
  intro path hpath
  obtain ⟨line, hline, his⟩ := (mem_of_readPaths stdin paths hpaths path).mp hpath
  exact his.plain (hplain line hline)

theorem fits_iff_shallow {stdin paths : List Text} (hpaths : readPaths stdin = .ok paths)
    (frames : Nat) : Fits frames paths ↔ Shallow frames stdin := by
  have hmem := mem_of_readPaths stdin paths hpaths
  have hslashes : ∀ line ∈ stdin, ['/', '/'] <:+: strip line := by
    intro line hline
    by_contra hnone
    have herror := (readPaths_eq_error stdin .listIndexOutOfRange).mpr ⟨line, hline, hnone⟩
    rw [hpaths] at herror
    cases herror
  constructor
  · rintro ⟨hpos, hfits⟩
    exact ⟨hpos, hslashes, fun line hline path his => hfits path ((hmem path).mpr ⟨line, hline, his⟩)⟩
  · rintro ⟨hpos, _, hshallow⟩
    refine ⟨hpos, fun path hpath => ?_⟩
    obtain ⟨line, hline, his⟩ := (hmem path).mp hpath
    exact hshallow line hline path his

/-- Without a path in some line, nothing is read. -/
theorem urlToTree_of_error {frames : Nat} {stdin : List Text}
    (h : ∃ line ∈ stdin, ¬ ['/', '/'] <:+: strip line) :
    urlToTree frames stdin = .raised (.indexError .listIndexOutOfRange) := by
  rw [urlToTree, (readPaths_eq_error stdin .listIndexOutOfRange).mpr h]

theorem exists_readPaths {stdin : List Text}
    (h : ¬ ∃ line ∈ stdin, ¬ ['/', '/'] <:+: strip line) : ∃ paths, readPaths stdin = .ok paths := by
  cases hpaths : readPaths stdin with
  | error e => exact absurd ((readPaths_eq_error stdin e).mp hpaths) h
  | ok paths => exact ⟨paths, rfl⟩

/-- **The script on its whole input.**  It ends with an `IndexError`, and nothing printed, exactly
if a line has no `//`.  Otherwise, if there is no whitespace inside the lines, it returns exactly if
there is room for the segments of each path; the text read back by its indentation is then the
tree of the prefixes of the paths of all lines, each on one line.  Without room it ends with a
`RecursionError`, and a beginning of that text is printed. -/
theorem url_to_tree_faithful (frames : Nat) (stdin : List Text) :
    ((urlToTree frames stdin).error = some (.indexError .listIndexOutOfRange) ↔
        ∃ line ∈ stdin, ¬ ['/', '/'] <:+: strip line) ∧
      ((urlToTree frames stdin).error = some (.indexError .listIndexOutOfRange) →
        (urlToTree frames stdin).text = []) ∧
      ((∀ line ∈ stdin, ∀ c ∈ strip line, isSpace c = false) →
        ((urlToTree frames stdin).error = none ↔ Shallow frames stdin) ∧
        (Shallow frames stdin →
          (∀ p, p ∈ (readTree (urlToTree frames stdin).text).paths ↔
            p ≠ [] ∧ ∃ line ∈ stdin, ∃ path, IsPath (strip line) path ∧ p <+: path.splitOn '/') ∧
          (readTree (urlToTree frames stdin).text).paths.Nodup ∧
          (lines '\n' (urlToTree frames stdin).text).length =
            (readTree (urlToTree frames stdin).text).paths.length) ∧
        ((∀ line ∈ stdin, ['/', '/'] <:+: strip line) → ¬ Shallow frames stdin →
          (urlToTree frames stdin).error = some .recursionError ∧
          ∀ frames', Shallow frames' stdin →
            (urlToTree frames stdin).text <+: (urlToTree frames' stdin).text)) := by
  by_cases hnone : ∃ line ∈ stdin, ¬ ['/', '/'] <:+: strip line
  · have hraised : ∀ frames, urlToTree frames stdin = .raised (.indexError .listIndexOutOfRange) :=
      fun frames => urlToTree_of_error hnone
    have hdeep : ¬ Shallow frames stdin := by
      intro hshallow
      obtain ⟨line, hline, hno⟩ := hnone
      exact hno (hshallow.2.1 line hline)
    refine ⟨iff_of_true (by rw [hraised]; rfl) hnone, fun _ => by rw [hraised]; rfl, fun _ => ?_⟩
    refine ⟨iff_of_false (by rw [hraised]; exact Option.some_ne_none _) hdeep,
      fun hshallow => absurd hshallow hdeep, fun hslashes => ?_⟩
    obtain ⟨line, hline, hno⟩ := hnone
    exact absurd (hslashes line hline) hno
  · obtain ⟨paths, hpaths⟩ := exists_readPaths hnone
    have hprint : ∀ frames, urlToTree frames stdin = printTree frames paths := by
      intro frames
      rw [urlToTree, hpaths]
    have herror : (printTree frames paths).error ≠ some (.indexError .listIndexOutOfRange) := by
      rcases error_eq frames paths with hnone | hraised
      · rw [hnone]
        exact (Option.some_ne_none _).symm
      · rw [hraised]
        intro h
        cases h
    simp only [hprint]
    refine ⟨iff_of_false herror hnone, fun h => absurd h herror, fun hplain => ?_⟩
    have hpath := plain_of_readPaths hpaths hplain
    simp only [← fits_iff_shallow hpaths]
    refine ⟨returns_iff hpath frames, fun hfits => ?_, fun _ => raised_of_not_fits hpath⟩
    have hmem := mem_of_readPaths stdin paths hpaths
    have hfaithful := faithful_grow hpath
    rw [length_lines_printTree hpath hfits, readTree_printTree hpath hfits]
    refine ⟨fun p => ?_, hfaithful.once, rfl⟩
    rw [hfaithful.nodes]
    refine and_congr_right fun _ => ?_
    constructor
    · rintro ⟨path, hpath, hfront⟩
      obtain ⟨line, hline, his⟩ := (hmem path).mp hpath
      exact ⟨line, hline, path, his, hfront⟩
    · rintro ⟨line, hline, path, his, hfront⟩
      exact ⟨path, (hmem path).mpr ⟨line, hline, his⟩, hfront⟩

/-- A path, a path with a `//` in it, and no path. -/
def sampleUrls : List Text :=
  ["http://a/b/c\n".toList, "https://a/b//d\n".toList, "http://a".toList]

/-- With room for a thousand calls, and for two. -/
theorem url_to_tree_faithful_sample :
    ((∀ p, p ∈ (readTree (urlToTree 1000 sampleUrls).text).paths ↔
        p ≠ [] ∧ ∃ line ∈ sampleUrls, ∃ path,
          IsPath (strip line) path ∧ p <+: path.splitOn '/') ∧
      urlToTree 1000 sampleUrls = ⟨"b/\n    c/\n/\n".toList, none⟩) ∧
      ¬ Shallow 2 sampleUrls ∧
      urlToTree 2 sampleUrls = ⟨"b/\n    c/\n".toList, some .recursionError⟩ := by
  have hplain : ∀ line ∈ sampleUrls, ∀ c ∈ strip line, isSpace c = false := by
    have hall : (sampleUrls.all fun line => (strip line).all fun c => !isSpace c) = true := rfl
    intro line hline c hc
    exact (Bool.not_eq_true' _).mp (List.all_eq_true.mp (List.all_eq_true.mp hall line hline) c hc)
  have hroom : urlToTree 1000 sampleUrls = ⟨"b/\n    c/\n/\n".toList, none⟩ := by decide +kernel
  have hno : urlToTree 2 sampleUrls = ⟨"b/\n    c/\n".toList, some .recursionError⟩ := by
    decide +kernel
  obtain ⟨_, _, hprints⟩ := url_to_tree_faithful 1000 sampleUrls
  obtain ⟨hreturns, htree, _⟩ := hprints hplain
  obtain ⟨_, _, hprints'⟩ := url_to_tree_faithful 2 sampleUrls
  refine ⟨⟨(htree (hreturns.mp (by rw [hroom]))).1, hroom⟩, fun hshallow => ?_, hno⟩
  have hnone := (hprints' hplain).1.mpr hshallow
  rw [hno] at hnone
  cases hnone

end Smoll.UrlTree
