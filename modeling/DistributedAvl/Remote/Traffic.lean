import DistributedAvl.Insertion.Pivot
import DistributedAvl.Remote.Client

namespace DistributedAvl

namespace NodePtr

def perform (root : NodePtr) (op : Operation) : Option NodePtr :=
  (Operation.direct root op).map Prod.fst

-- What a node calls on its children where they are links, without the calls that only read.
structure Sent where
  left : List Operation
  right : List Operation

namespace Sent

def silent : Sent := ⟨[], []⟩

def cleared : Sent := ⟨[.clear], [.clear]⟩

def append (sent next : Sent) : Sent := ⟨sent.left ++ next.left, sent.right ++ next.right⟩

end Sent

-- A tree is put where the child is: clear(), setData() and set_subtree().
def hangSent (tree : NodePtr) : Option (List Operation) :=
  if tree.present then do
    return [.clear, .setData (← tree.getWord) (← tree.getCounter), .setSubtree tree]
  else some []

-- One child takes the word of the node, and the tree of the other is put under it.
def moveSent (other : NodePtr) (push : Operation) : Option (List Operation × List Operation) :=
  if other.present then do
    let tree ← other.getSubtree
    return (if tree.present then [push, .setSubtree tree] else [push], [.clear])
  else some ([push], [])

def pushLeftSent : NodePtr → Option Sent
  | node l h x n r => do
      if ← (node l h x n r).hasWord then
        let (left, right) ← moveSent r (.pushLeftSubtree x n)
        return ⟨left, right⟩
      else return .silent
  | _ => some .silent

def pushRightSent : NodePtr → Option Sent
  | node l h x n r => do
      if ← (node l h x n r).hasWord then
        let (right, left) ← moveSent l (.pushRightSubtree x n)
        return ⟨left, right⟩
      else return .silent
  | _ => some .silent

def pullLeftSent : NodePtr → Option Sent
  | node l _ _ _ _ =>
      if l.present then do
        let right_tree ← l.getRightSubtree
        let left_tree ← l.getLeftSubtree
        return ⟨[.clear], [.clear] ++ (← hangSent right_tree) ++ (← hangSent left_tree)⟩
      else some ⟨[.clear], [.clear, .clear]⟩
  | _ => some .silent

def pullRightSent : NodePtr → Option Sent
  | node _ _ _ _ r =>
      if r.present then do
        let right_tree ← r.getRightSubtree
        let left_tree ← r.getLeftSubtree
        return ⟨[.clear], [.clear] ++ (← hangSent right_tree) ++ (← hangSent left_tree)⟩
      else some ⟨[.clear, .clear], [.clear]⟩
  | _ => some .silent

def rotateRightSent : NodePtr → Option Sent
  | node l _ x n _ => do
      let left_tree ← l.getRightSubtree
      let cut := if !(← l.getLeft).present && !(← l.getRight).present then .clear
        else .pullLeftSubtree
      return ⟨[cut], [.pushRightSubtree x n] ++
        if left_tree.present then [.setLeftSubtree left_tree] else []⟩
  | _ => some .silent

def rotateLeftSent : NodePtr → Option Sent
  | node _ _ x n r => do
      let right_tree ← r.getLeftSubtree
      let cut := if !(← r.getLeft).present && !(← r.getRight).present then .clear
        else .pullRightSubtree
      return ⟨[.pushLeftSubtree x n] ++
        if right_tree.present then [.setRightSubtree right_tree] else [], [cut]⟩
  | _ => some .silent

def balanceSent : NodePtr → Int → Word → Option Sent
  | node l h x n r, balance_value, new_word =>
      if balance_value = 2 then do
        if ← r.smaller new_word then
          return Sent.append ⟨[], [.rotateRight]⟩
            (← (node l h x n (← r.rotateRight)).rotateLeftSent)
        else (node l h x n r).rotateLeftSent
      else if balance_value = -2 then do
        if !(← l.smaller new_word) then
          return Sent.append ⟨[.rotateLeft], []⟩
            (← (node (← l.rotateLeft) h x n r).rotateRightSent)
        else (node l h x n r).rotateRightSent
      else some .silent
  | _, _, _ => some .silent

def insertSent : NodePtr → Word → Option Sent
  | node l h x n r, word =>
      if (node l h x n r).holds = false ∨ word = x then some .silent
      else if x < word then do
        let (this, balance_value) ← (node l h x n (← r.insertInto word)).updateHeight
        return Sent.append ⟨[], [.insert word]⟩ (← this.balanceSent balance_value word)
      else do
        let (this, balance_value) ← (node (← l.insertInto word) h x n r).updateHeight
        return Sent.append ⟨[.insert word], []⟩ (← this.balanceSent balance_value word)
  | _, _ => some .silent

def removeLocalSent : NodePtr → Option Sent
  | node l h x n r => do
      if ← (if l.present then l.hasWord else some false) then (node l h x n r).pullLeftSent
      else if ← (if r.present then r.hasWord else some false) then (node l h x n r).pullRightSent
      else return .cleared
  | _ => some .silent

def wordless (l r : NodePtr) : Option Bool := do
  if !l.present && !r.present then return true
  else if ← l.hasWord then return false
  else return !(← r.hasWord)

def removeSent : NodePtr → Word → Option Sent
  | node l h x n r, word =>
      if word = x then
        if n - 1 ≤ 0 then do
          if ← wordless l r then return .cleared else (node l h x (n - 1) r).removeLocalSent
        else some .silent
      else if word < x then some ⟨[.remove word, .clear], []⟩
      else some ⟨[], [.remove word, .clear]⟩
  | _, _ => some .silent

def sent (this : NodePtr) : Operation → Option Sent
  | .insert word => this.insertSent word
  | .remove word => this.removeSent word
  | .rotateLeft => this.rotateLeftSent
  | .rotateRight => this.rotateRightSent
  | .pushLeftSubtree _ _ => this.pushLeftSent
  | .pushRightSubtree _ _ => this.pushRightSent
  | .pullLeftSubtree => this.pullLeftSent
  | .pullRightSubtree => this.pullRightSent
  | .setLeftSubtree tree => do return ⟨← hangSent tree, []⟩
  | .setRightSubtree tree => do return ⟨[], ← hangSent tree⟩
  | .clear => some .cleared
  | _ => some .silent

def runSent : NodePtr → List Operation → Option Sent
  | _, [] => some .silent
  | root, op :: ops => do
      let first ← root.sent op
      let rest ← runSent (← root.perform op) ops
      return first.append rest

end NodePtr

end DistributedAvl
