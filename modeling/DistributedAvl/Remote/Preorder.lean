import DistributedAvl.Tree.Local

namespace DistributedAvl

-- The lines that NodeData::preorder writes to the log.
inductive LogLine where
  | visit (word : Word) (height : Int) (counter : Int)
  | goLeft
  | goRight
  | goUp
  deriving DecidableEq, Repr

namespace NodePtr

variable {l r t : NodePtr} {h : Int} {x : Word} {n : Int} {log : List LogLine}
  {far : List (List LogLine)}

-- What is written here, and what is written on the machines below, each of which has a log of its
-- own.  A proxy has its machine traverse its tree and then is itself a node without children.
def preorder : NodePtr → Option (List LogLine × List (List LogLine))
  | null => none
  | node l h w c r => do
      let (left, leftFar) ←
        (if l.present then do
          let (log, far) ← l.preorder
          return (.goLeft :: log, far)
        else some ([], []))
      let (right, rightFar) ←
        (if r.present then do
          let (log, far) ← r.preorder
          return (.goRight :: log, far)
        else some ([], []))
      return (.visit w h c :: (left ++ right ++ [.goUp]), leftFar ++ rightFar)
  | remote root => do
      let (log, far) ← root.preorder
      let word ← root.getWord
      let height ← root.getHeight
      let counter ← root.getCounter
      return ([.visit word height counter, .goUp], log :: far)

def childless : NodePtr → NodePtr
  | node _ h x n _ => node null h x n null
  | t => t

-- The tree as one machine shows it: of another machine no more than the root.
def facade : NodePtr → NodePtr
  | null => null
  | node l h x n r => node l.facade h x n r.facade
  | remote root => root.facade.childless

-- The roots of the machines below, however far.
def machines : NodePtr → List NodePtr
  | null => []
  | node l _ _ _ r => l.machines ++ r.machines
  | remote root => root :: root.machines

def readSide (turn : LogLine) (read : List LogLine → Option (NodePtr × List LogLine)) :
    List LogLine → Option (NodePtr × List LogLine)
  | [] => some (null, [])
  | line :: lines => if line = turn then read lines else some (null, line :: lines)

def readLog : Nat → List LogLine → Option (NodePtr × List LogLine)
  | fuel + 1, .visit w h c :: lines => do
      let (l, lines) ← readSide .goLeft (readLog fuel) lines
      let (r, lines) ← readSide .goRight (readLog fuel) lines
      match lines with
      | .goUp :: lines => return (node l h w c r, lines)
      | _ => none
  | _, _ => none

def logged (log : List LogLine) : Option NodePtr :=
  match readLog log.length log with
  | some (t, []) => some t
  | _ => none

theorem facade_getters (ht : t.present = true) (hm : ∀ m ∈ t.machines, m.present = true) :
    ∃ l h x n r, t.facade = node l h x n r ∧ t.getWord = some x ∧ t.getHeight = some h ∧
      t.getCounter = some n := by
  induction t with
  | null => cases ht
  | node l h x n r => exact ⟨_, h, x, n, _, rfl, rfl, rfl, rfl⟩
  | remote root ih =>
      obtain ⟨l, h, x, n, r, hfacade, hx, hh, hn⟩ :=
        ih (hm root (by simp [machines])) fun m hmem => hm m (by simp [machines, hmem])
      exact ⟨null, h, x, n, null, by rw [facade, hfacade, childless], hx, hh, hn⟩

structure Written (t : NodePtr) (log : List LogLine) (far : List (List LogLine)) : Prop where
  here : ∀ fuel rest, log.length ≤ fuel → readLog fuel (log ++ rest) = some (t.facade, rest)
  below : far.map logged = t.machines.map fun m => some m.facade

theorem Written.logged (h : Written t log far) : logged log = some t.facade := by
  have hread := h.here log.length [] le_rfl
  rw [List.append_nil] at hread
  rw [NodePtr.logged, hread]

structure Side (t : NodePtr) (turn : LogLine) (log : List LogLine) (far : List (List LogLine)) :
    Prop where
  part : (t = null ∧ log = []) ∨ ∃ rest, log = turn :: rest ∧ Written t rest far
  below : far.map NodePtr.logged = t.machines.map fun m => some m.facade

theorem side_written (turn : LogLine)
    (ht : t.present = true → ∃ log far, t.preorder = some (log, far) ∧ Written t log far) :
    ∃ log far, (if t.present then do
        let (log, far) ← t.preorder
        return (turn :: log, far)
      else some ([], [])) = some (log, far) ∧ Side t turn log far := by
  cases hp : t.present with
  | false =>
      obtain rfl := present_eq_false.mp hp
      exact ⟨[], [], rfl, Or.inl ⟨rfl, rfl⟩, rfl⟩
  | true =>
      obtain ⟨log, far, hpre, hwritten⟩ := ht hp
      exact ⟨turn :: log, far, by simp [hpre], Or.inr ⟨log, rfl, hwritten⟩, hwritten.below⟩

theorem Side.read {turn : LogLine} (hs : Side t turn log far) (fuel : Nat) (rest : List LogLine)
    (hfuel : log.length ≤ fuel) (hturn : rest.head? ≠ some turn) :
    readSide turn (readLog fuel) (log ++ rest) = some (t.facade, rest) := by
  rcases hs.part with ⟨rfl, rfl⟩ | ⟨lines, rfl, hwritten⟩
  · cases rest with
    | nil => rfl
    | cons line lines =>
        have hne : line ≠ turn := fun heq => hturn (congrArg some heq)
        simp [readSide, hne, facade]
  · rw [List.length_cons] at hfuel
    simpa [readSide] using hwritten.here fuel rest (by omega)

theorem Side.head {turn : LogLine} (hs : Side t turn log far) (line : LogLine)
    (lines : List LogLine) :
    (log ++ line :: lines).head? = some turn ∨ (log ++ line :: lines).head? = some line := by
  rcases hs.part with ⟨-, rfl⟩ | ⟨rest, rfl, -⟩
  · exact Or.inr rfl
  · exact Or.inl rfl

theorem node_written {left right : List LogLine} {leftFar rightFar : List (List LogLine)}
    (hl : Side l .goLeft left leftFar) (hr : Side r .goRight right rightFar) :
    Written (node l h x n r) (.visit x h n :: (left ++ right ++ [.goUp]))
      (leftFar ++ rightFar) where
  here := by
    intro fuel rest hfuel
    cases fuel with
    | zero => simp at hfuel
    | succ fuel =>
        simp only [List.length_cons, List.length_append] at hfuel
        have hright := hr.read fuel (.goUp :: rest) (by omega) (by simp)
        have hleft := hl.read fuel (right ++ .goUp :: rest) (by omega) (by
          rcases hr.head .goUp rest with heq | heq <;> simp [heq])
        simp [readLog, hleft, hright, facade]
  below := by simp [hl.below, hr.below, machines]

theorem remote_written {root l' r' : NodePtr} (hwritten : Written root log far)
    (hfacade : root.facade = node l' h x n r') :
    Written (remote root) [.visit x h n, .goUp] (log :: far) where
  here := by
    intro fuel rest hfuel
    cases fuel with
    | zero => simp at hfuel
    | succ fuel => simp [readLog, readSide, facade, hfacade, childless]
  below := by simp [hwritten.below, hwritten.logged, machines]

theorem preorder_written (ht : t.present = true) (hm : ∀ m ∈ t.machines, m.present = true) :
    ∃ log far, t.preorder = some (log, far) ∧ Written t log far := by
  induction t with
  | null => cases ht
  | remote root ih =>
      have hbelow : ∀ m ∈ root.machines, m.present = true :=
        fun m hmem => hm m (by simp [machines, hmem])
      have hroot : root.present = true := hm root (by simp [machines])
      obtain ⟨log, far, hpre, hwritten⟩ := ih hroot hbelow
      obtain ⟨l, h, x, n, r, hfacade, hx, hh, hn⟩ := facade_getters hroot hbelow
      exact ⟨_, _, by simp [preorder, hpre, hx, hh, hn], remote_written hwritten hfacade⟩
  | node l h x n r ihl ihr =>
      obtain ⟨left, leftFar, hleft, hl⟩ := side_written .goLeft fun hp =>
        ihl hp fun m hmem => hm m (by simp [machines, hmem])
      obtain ⟨right, rightFar, hright, hr⟩ := side_written .goRight fun hp =>
        ihr hp fun m hmem => hm m (by simp [machines, hmem])
      exact ⟨_, _, by rw [preorder, hleft, hright]; rfl, node_written hl hr⟩

theorem preorder_reads (ht : t.present = true) (hm : ∀ m ∈ t.machines, m.present = true) :
    ∃ log far, t.preorder = some (log, far) ∧ logged log = some t.facade ∧
      far.map logged = t.machines.map fun m => some m.facade := by
  obtain ⟨log, far, hpre, hwritten⟩ := preorder_written ht hm
  exact ⟨log, far, hpre, hwritten.logged, hwritten.below⟩

theorem preorder_reads_far : ∃ log far,
    (node (remote (create [97])) 1 [98] 2 null).preorder = some (log, far) ∧
      logged log = some (node (remote (create [97])) 1 [98] 2 null).facade ∧
      far.map logged = (node (remote (create [97])) 1 [98] 2 null).machines.map
        fun m => some m.facade :=
  preorder_reads rfl (by decide)

end NodePtr

end DistributedAvl
