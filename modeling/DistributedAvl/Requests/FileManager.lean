import DistributedAvl.Tree.Word
import Mathlib.Data.List.TakeWhile

namespace DistributedAvl

def newline : Byte := 10

def space : Byte := 32

def inLine (c : Byte) : Bool := decide (c ≠ newline)

-- std::getline: what stands before the next newline, and what is left behind it; it fails when
-- nothing is left.
def getline (file : Word) : Option (Word × Word) :=
  if file = [] then none else some (file.takeWhile inLine, (file.dropWhile inLine).drop 1)

-- boost::split on any of " ", without token compression.
def split (line : Word) : List Word := line.splitOn space

theorem getline_cases {file line rest : Word} (h : getline file = some (line, rest)) :
    newline ∉ line ∧ (file = line ++ newline :: rest ∨ file = line ∧ line ≠ [] ∧ rest = []) := by
  obtain ⟨hne, heq⟩ := Option.ite_none_left_eq_some.mp h
  cases heq
  have htake : newline ∉ file.takeWhile inLine := by
    intro hmem
    have := List.mem_takeWhile_imp hmem
    simp [inLine] at this
  have happend : file.takeWhile inLine ++ file.dropWhile inLine = file :=
    List.takeWhile_append_dropWhile
  refine ⟨htake, ?_⟩
  cases hdrop : file.dropWhile inLine with
  | nil =>
      rw [hdrop, List.append_nil] at happend
      exact Or.inr ⟨happend.symm, by rwa [happend], rfl⟩
  | cons d rest =>
      have hhead := List.head?_dropWhile_not inLine file
      simp only [hdrop, List.head?_cons] at hhead
      have hd : d = newline := by simpa [inLine] using hhead
      rw [hdrop, hd] at happend
      exact Or.inl happend.symm

theorem getline_append {line : Word} (hline : newline ∉ line) (rest : Word) :
    getline (line ++ newline :: rest) = some (line, rest) := by
  have hin : ∀ c ∈ line, inLine c = true := by
    intro c hc
    simpa [inLine] using fun heq : c = newline => hline (heq ▸ hc)
  have hend : inLine newline = false := by decide
  rw [getline, if_neg (by simp), List.takeWhile_append_of_pos hin, List.dropWhile_append_of_pos hin]
  simp [hend]

theorem getline_shorter {file line rest : Word} (h : getline file = some (line, rest)) :
    rest.length < file.length := by
  obtain ⟨-, rfl | ⟨rfl, hne, rfl⟩⟩ := getline_cases h
  · simp only [List.length_append, List.length_cons]
    omega
  · exact List.length_pos_iff.mpr hne

theorem getline_none {file : Word} : getline file = none ↔ file = [] := by simp [getline]

structure FileManager where
  root : Bool
  test : Bool
  file : Word
  deriving DecidableEq, Repr

namespace FileManager

def create (root : Bool) : FileManager := ⟨root, true, []⟩

-- file is what the named file holds; one that cannot be opened reads as empty.
def setFile (this : FileManager) (file : Word) : FileManager :=
  { this with test := false, file := file }

def lines (file : Word) : List Word :=
  match _ : getline file with
  | none => []
  | some (line, rest) => line :: lines rest
termination_by file.length
decreasing_by exact getline_shorter (by assumption)

-- The second reading of the file does nothing with its words.
def readFile (file : Word) : List Word := (lines file).flatMap split

def letters (c : Byte) : Word := [c, c, c]

def testWords : List Word :=
  [letters 77, letters 84, letters 68, letters 67, letters 72, letters 87, letters 86, letters 69,
    letters 70, letters 66, letters 70, letters 78, letters 82, letters 66, letters 81, letters 69,
    letters 73, letters 88, letters 65, letters 80, letters 90, letters 84]

-- The words that start hands over one after another, each to be added: to the tree on the root, to
-- the Sender elsewhere.
def start (this : FileManager) : List Word :=
  if this.test then testWords else readFile this.file

theorem lines_nil : lines [] = [] := by rw [lines]; rfl

theorem lines_cons {file line rest : Word} (h : getline file = some (line, rest)) :
    lines file = line :: lines rest := by
  rw [lines]
  split
  · rename_i hnone
    rw [h] at hnone
    cases hnone
  · rename_i line' rest' hsome
    rw [h] at hsome
    cases hsome
    rfl

-- The file with its last line ended.
def ended (file : Word) : Word :=
  match file.getLast? with
  | none => file
  | some c => if c = newline then file else file ++ [newline]

def unlines (ls : List Word) : Word := ls.flatMap fun line => line ++ [newline]

theorem ended_append (line rest : Word) :
    ended (line ++ newline :: rest) = line ++ newline :: ended rest := by
  cases rest with
  | nil => simp [ended, List.getLast?_append]
  | cons c rest =>
      have hlast : (line ++ newline :: c :: rest).getLast? = (c :: rest).getLast? := by
        rw [List.getLast?_append, List.getLast?_cons_cons, List.getLast?_eq_some_getLast (by simp)]
        rfl
      rw [ended, ended, hlast]
      cases (c :: rest).getLast? with
      | none => rfl
      | some d => by_cases hd : d = newline <;> simp [hd]

theorem ended_line {line : Word} (hline : newline ∉ line) (hne : line ≠ []) :
    ended line = line ++ [newline] := by
  have hlast := List.getLast?_eq_some_getLast hne
  have hnot : line.getLast hne ≠ newline := fun heq => hline (heq ▸ List.getLast_mem hne)
  simp [ended, hlast, hnot]

theorem lines_spec (file : Word) :
    unlines (lines file) = ended file ∧ ∀ line ∈ lines file, newline ∉ line := by
  induction hn : file.length using Nat.strong_induction_on generalizing file with
  | _ n ih =>
      subst hn
      cases hline : getline file with
      | none =>
          obtain rfl := getline_none.mp hline
          rw [lines_nil]
          exact ⟨rfl, by simp⟩
      | some p =>
          obtain ⟨line, rest⟩ := p
          obtain ⟨hprinted, hclean⟩ := ih rest.length (getline_shorter hline) rest rfl
          obtain ⟨hnot, hfile⟩ := getline_cases hline
          rw [lines_cons hline]
          refine ⟨?_, by simpa using ⟨hnot, hclean⟩⟩
          rw [unlines, List.flatMap_cons, ← unlines, hprinted]
          rcases hfile with rfl | ⟨rfl, hne, rfl⟩
          · rw [ended_append]
            simp
          · rw [ended_line hnot hne]
            simp [ended]

theorem lines_unlines {ls : List Word} (hls : ∀ line ∈ ls, newline ∉ line) :
    lines (unlines ls) = ls := by
  induction ls with
  | nil => exact lines_nil
  | cons line ls ih =>
      have hfile : unlines (line :: ls) = line ++ newline :: unlines ls := by
        simp [unlines]
      rw [hfile, lines_cons (getline_append (hls line (by simp)) _),
        ih fun line hline => hls line (by simp [hline])]

end FileManager

theorem split_clean {line word : Word} (hword : word ∈ split line) :
    space ∉ word ∧ word ⊆ line := by
  induction line generalizing word with
  | nil =>
      obtain rfl : word = [] := by simpa [split] using hword
      simp
  | cons c line ih =>
      rw [split, List.splitOn_cons_eq_if_modifyHead] at hword
      obtain ⟨w, ws, hline⟩ := List.exists_cons_of_ne_nil (List.splitOn_ne_nil space line)
      have htail : ∀ u ∈ w :: ws, space ∉ u ∧ u ⊆ line := fun u hu => ih (by rwa [split, hline])
      rw [hline] at hword
      by_cases hc : c = space
      · simp only [hc, beq_self_eq_true, if_true] at hword
        rcases List.mem_cons.mp hword with rfl | hmem
        · simp
        · obtain ⟨hnot, hsub⟩ := htail word hmem
          exact ⟨hnot, List.Subset.trans hsub (List.subset_cons_self c line)⟩
      · simp only [beq_iff_eq, hc, if_false, List.modifyHead_cons] at hword
        rcases List.mem_cons.mp hword with rfl | hmem
        · obtain ⟨hnot, hsub⟩ := htail w (by simp)
          exact ⟨by simpa [hnot] using Ne.symm hc, List.cons_subset_cons c hsub⟩
        · obtain ⟨hnot, hsub⟩ := htail word (by simp [hmem])
          exact ⟨hnot, List.Subset.trans hsub (List.subset_cons_self c line)⟩

theorem newline_intercalate {tokens : List Word} (htokens : ∀ token ∈ tokens, newline ∉ token) :
    newline ∉ [space].intercalate tokens := by
  induction tokens with
  | nil => simp
  | cons token tokens ih =>
      have hrest := ih fun u hu => htokens u (by simp [hu])
      have hfirst := htokens token (by simp)
      cases tokens with
      | nil => simpa using hfirst
      | cons u us =>
          have hne : newline ≠ space := by decide
          rw [List.intercalate_cons_cons]
          simp only [List.mem_append, List.mem_singleton, not_or]
          exact ⟨⟨hfirst, hne⟩, hrest⟩

-- A text as lines of words: on a line one word more than it has spaces, some of them empty.
@[ext]
structure Layout where
  lines : List (List Word)
  worded : ∀ tokens ∈ lines, tokens ≠ []
  clean : ∀ tokens ∈ lines, ∀ token ∈ tokens, space ∉ token ∧ newline ∉ token

namespace Layout

def printed (layout : Layout) : Word :=
  FileManager.unlines (layout.lines.map fun tokens => [space].intercalate tokens)

def tokens (layout : Layout) : List Word := layout.lines.flatten

def ofFile (file : Word) : Layout where
  lines := (FileManager.lines file).map split
  worded := by simp [split]
  clean := by
    intro tokens htokens token htoken
    obtain ⟨line, hline, rfl⟩ := List.mem_map.mp htokens
    obtain ⟨hspace, hsub⟩ := split_clean htoken
    exact ⟨hspace, fun hmem => (FileManager.lines_spec file).2 line hline (hsub hmem)⟩

theorem printed_ofFile (file : Word) : (ofFile file).printed = FileManager.ended file := by
  have hjoin : ∀ line, [space].intercalate (split line) = line :=
    fun line => List.intercalate_splitOn space
  rw [printed, ofFile, List.map_map, ← (FileManager.lines_spec file).1]
  exact congrArg FileManager.unlines
    ((List.map_congr_left fun line _ => hjoin line).trans (List.map_id _))

theorem ofFile_printed (layout : Layout) : ofFile layout.printed = layout := by
  have hlines : FileManager.lines layout.printed =
      layout.lines.map fun tokens => [space].intercalate tokens := by
    refine FileManager.lines_unlines fun line hline => ?_
    obtain ⟨tokens, htokens, rfl⟩ := List.mem_map.mp hline
    exact newline_intercalate fun token htoken => (layout.clean tokens htokens token htoken).2
  refine Layout.ext ?_
  change (FileManager.lines layout.printed).map split = layout.lines
  rw [hlines, List.map_map]
  refine (List.map_congr_left fun tokens htokens => ?_).trans (List.map_id _)
  exact List.splitOn_intercalate space
    (fun token htoken => (layout.clean tokens htokens token htoken).1)
    (layout.worded tokens htokens)

end Layout

theorem FileManager.readFile_layout (file : Word) : ∃ layout : Layout,
    layout.printed = ended file ∧ readFile file = layout.tokens ∧
      ∀ other : Layout, other.printed = ended file → other = layout := by
  have hsame : Layout.ofFile (ended file) = Layout.ofFile file := by
    rw [← Layout.printed_ofFile, Layout.ofFile_printed]
  refine ⟨Layout.ofFile file, Layout.printed_ofFile file, ?_, fun other hother => ?_⟩
  · rw [readFile, Layout.tokens, Layout.ofFile, List.flatMap_def]
  · rw [← Layout.ofFile_printed other, hother, hsame]

end DistributedAvl
