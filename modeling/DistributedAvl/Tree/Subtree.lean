import DistributedAvl.Tree.Codec

namespace DistributedAvl

open SubtreeMessageParser

namespace NodePtr

def getSubtree : NodePtr → Option NodePtr
  | null => none
  | node l _ w c r => do
      let (copy, _) ← (node l 0 w c r).updateHeight
      return copy
  | remote root => root.carried

def getRightSubtree : NodePtr → Option NodePtr
  | null => none
  | node _ _ _ _ r => if r.present then r.getSubtree else some null
  | remote root => do (← root.getRight).carried

def getLeftSubtree : NodePtr → Option NodePtr
  | null => none
  | node l _ _ _ _ => if l.present then l.getSubtree else some null
  | remote root => do (← root.getLeft).carried

def setSubtree : NodePtr → NodePtr → Option NodePtr
  | null, _ => none
  | node l h w c r, tree =>
      if tree.present then do
        let word ← tree.getWord
        let counter ← tree.getCounter
        return node (← tree.getLeft) 0 word counter (← tree.getRight)
      else some (node l h w c r)
  | remote root, tree => do return remote (← root.setSubtree (← tree.carried))

-- The stored child is the very object passed to set_subtree, so it is overwritten by itself.
def setLeftSubtree : NodePtr → NodePtr → Option NodePtr
  | null, _ => none
  | node l h w c r, tree =>
      if tree.present then do
        let l₁ ← l.clearChild
        let l₂ ← (if l₁.present then do l₁.setData (← tree.getWord) (← tree.getCounter)
          else some tree)
        let l₃ ← l₂.setSubtree tree
        let (this, _) ← (node l₃ h w c r).updateHeight
        return this
      else some (node l h w c r)
  | remote root, tree => do return remote (← root.setLeftSubtree (← tree.carried))

def setRightSubtree : NodePtr → NodePtr → Option NodePtr
  | null, _ => none
  | node l h w c r, tree =>
      if tree.present then do
        let r₁ ← r.clearChild
        let r₂ ← (if r₁.present then do r₁.setData (← tree.getWord) (← tree.getCounter)
          else some tree)
        let r₃ ← r₂.setSubtree tree
        let (this, _) ← (node l h w c r₃).updateHeight
        return this
      else some (node l h w c r)
  | remote root, tree => do return remote (← root.setRightSubtree (← tree.carried))

def pushLeftSubtree : NodePtr → Word → Int → Option NodePtr
  | null, _, _ => none
  | node l h w c r, word, counter => do
      if ← (node l h w c r).hasWord then
        let l₁ ← (if l.present then l.pushLeftSubtree w c else fresh.setData w c)
        let (l₂, r₁) ←
          (if r.present then do
            let tree ← r.getSubtree
            let r₁ ← r.clear
            let l₂ ← (if tree.present then l₁.setSubtree tree else some l₁)
            pure (l₂, r₁)
          else some (l₁, r))
        -- setData puts the height back to 0, height_++ makes it 1
        return node l₂ 1 word counter r₁
      else (node l h w c r).setData word counter
  | remote root, word, counter => do return remote (← root.pushLeftSubtree word counter)

def pushRightSubtree : NodePtr → Word → Int → Option NodePtr
  | null, _, _ => none
  | node l h w c r, word, counter => do
      if ← (node l h w c r).hasWord then
        let r₁ ← (if r.present then r.pushRightSubtree w c else fresh.setData w c)
        let (r₂, l₁) ←
          (if l.present then do
            let tree ← l.getSubtree
            let l₁ ← l.clear
            let r₂ ← (if tree.present then r₁.setSubtree tree else some r₁)
            pure (r₂, l₁)
          else some (r₁, l))
        return node l₁ 1 word counter r₂
      else (node l h w c r).setData word counter
  | remote root, word, counter => do return remote (← root.pushRightSubtree word counter)

def pullLeftSubtree : NodePtr → Option NodePtr
  | null => none
  | node l h w c r => do
      let r₁ ← r.clearChild
      if l.present then
        let word ← l.getWord
        let counter ← l.getCounter
        let right_tree ← l.getRightSubtree
        let left_tree ← l.getLeftSubtree
        let l₁ ← l.clear
        let this ← (if right_tree.present then (node l₁ h w c r₁).setRightSubtree right_tree
          else some (node l₁ h w c r₁))
        -- the left part, too, is set on the right
        let this ← (if left_tree.present then this.setRightSubtree left_tree else some this)
        let this ← this.setData word counter
        let (this, _) ← this.updateHeight
        return this
      else (node l h w c r₁).clearData
  | remote root => do return remote (← root.pullLeftSubtree)

-- RemoteAVLTreeClient::pull_right_subtree sends PullLeftSubTree.
def pullRightSubtree : NodePtr → Option NodePtr
  | null => none
  | node l h w c r => do
      let l₁ ← l.clearChild
      if r.present then
        let word ← r.getWord
        let counter ← r.getCounter
        let right_tree ← r.getRightSubtree
        let left_tree ← r.getLeftSubtree
        let r₁ ← r.clear
        let this ← (if right_tree.present then (node l₁ h w c r₁).setRightSubtree right_tree
          else some (node l₁ h w c r₁))
        let this ← (if left_tree.present then this.setRightSubtree left_tree else some this)
        let this ← this.setData word counter
        let (this, _) ← this.updateHeight
        return this
      else (node l₁ h w c r).clearData
  | remote root => do return remote (← root.pullLeftSubtree)

def rotateRight : NodePtr → Option NodePtr
  | null => none
  | node l h w c r => do
      let word ← l.getWord
      let counter ← l.getCounter
      let r₁ ← (if r.present then r.pushRightSubtree w c else fresh.setData w c)
      let left_tree ← l.getRightSubtree
      let r₂ ← (if left_tree.present then r₁.setLeftSubtree left_tree else some r₁)
      let l₁ ← (if !(← l.getLeft).present && !(← l.getRight).present then l.clear
        else l.pullLeftSubtree)
      let this ← (node l₁ h w c r₂).setData word counter
      let (this, _) ← this.updateHeight
      return this
  | remote root => do return remote (← root.rotateRight)

def rotateLeft : NodePtr → Option NodePtr
  | null => none
  | node l h w c r => do
      let word ← r.getWord
      let counter ← r.getCounter
      let l₁ ← (if l.present then l.pushLeftSubtree w c else fresh.setData w c)
      let right_tree ← r.getLeftSubtree
      let l₂ ← (if right_tree.present then l₁.setRightSubtree right_tree else some l₁)
      let r₁ ← (if !(← r.getLeft).present && !(← r.getRight).present then r.clear
        else r.pullRightSubtree)
      let this ← (node l₂ h w c r₁).setData word counter
      let (this, _) ← this.updateHeight
      return this
  | remote root => do return remote (← root.rotateLeft)

end NodePtr

end DistributedAvl
