import DistributedAvl.Tree.Subtree
import DistributedAvl.Foundation.Runs

namespace DistributedAvl

open SubtreeMessageParser

namespace NodePtr

def balance : NodePtr → Int → Word → Option NodePtr
  | null, _, _ => none
  | node l h w c r, balance_value, new_word =>
      if balance_value = 2 then do
        let r₁ ← (do if ← r.smaller new_word then r.rotateRight else some r)
        (node l h w c r₁).rotateLeft
      else if balance_value = -2 then do
        let l₁ ← (do if !(← l.smaller new_word) then l.rotateLeft else some l)
        (node l₁ h w c r).rotateRight
      else some (node l h w c r)
  | remote root, _, _ => some (remote root)

def insert : NodePtr → Word → Option NodePtr
  | null, _ => none
  | node l h w c r, word => do
      if !(← (node l h w c r).hasWord) then (node l h w c r).setWord word
      else if ← (node l h w c r).equalWord word then (node l h w c r).increaseCounter
      else
        let this ← (do
          if ← (node l h w c r).greaterWord word then
            if r.present then return node l h w c (← r.insert word)
            else return node l h w c (create word)
          else
            if l.present then return node (← l.insert word) h w c r
            else return node (create word) h w c r)
        let (this, balance_value) ← this.updateHeight
        this.balance balance_value word
  | remote root, word => do return remote (← root.insert word)

-- The node it returns, and what it leaves behind.
def findSuccessor : NodePtr → Option (NodePtr × NodePtr)
  | null => none
  | node l h w c r => do
      if ← (if l.present then some false else (do return !(← l.hasWord))) then
        let value ← (create w).setData w c
        let this ← (node l h w c r).pullRightSubtree
        let (this, balance_value) ← this.updateHeight
        let this ← this.balance balance_value (← this.getWord)
        return (value, this)
      else
        let (lesser_successor, l₁) ← l.findSuccessor
        return (lesser_successor, node l₁ h w c r)
  | remote root => do
      let (value, root₁) ← root.findSuccessor
      return (parseNodeTree (← parseProtoNode value), remote root₁)

def removeLocalWord : NodePtr → Option NodePtr
  | null => none
  | node l h w c r => do
      let leftWord ← (if l.present then l.hasWord else some false)
      let rightWord ← (if r.present then r.hasWord else some false)
      if leftWord && rightWord then
        let (lesser_successor, r₁) ← r.findSuccessor
        let l_word ← lesser_successor.getWord
        let l_counter ← lesser_successor.getCounter
        (node l h w c r₁).setData l_word l_counter
      else if leftWord then (node l h w c r).pullLeftSubtree
      else if rightWord then (node l h w c r).pullRightSubtree
      else (node l h w c r).clearData
  | remote root => some (remote root)

-- if (child || !child->hasWord()) child = child->clear();
def dropVisited (child : NodePtr) : Option NodePtr := do
  if ← (if child.present then some true else (do return !(← child.hasWord))) then child.clear
  else return child

-- The two branches of remove_remote_word are the last two of this definition.
def remove : NodePtr → Word → Option NodePtr
  | null, _ => none
  | node l h w c r, word => do
      if ← (node l h w c r).equalWord word then
        let this ← (node l h w c r).decreaseCounter
        if (← this.getCounter) ≤ 0 then
          let childless ← (do
            if !l.present && !r.present then return true
            else if ← l.hasWord then return false
            else return !(← r.hasWord))
          if childless then this.clearData else this.removeLocalWord
        else return this
      else if !(← (node l h w c r).greaterWord word) then
        if l.present then do
          let l₁ ← l.remove word
          return node (← l₁.dropVisited) h w c r
        else return node l h w c r
      else
        if r.present then do
          let r₁ ← r.remove word
          return node l h w c (← r₁.dropVisited)
        else return node l h w c r
  | remote root, word => do return remote (← root.remove word)

def insertAll (t : NodePtr) (words : List Word) : Option NodePtr := Runs.run insert t words

end NodePtr

end DistributedAvl
