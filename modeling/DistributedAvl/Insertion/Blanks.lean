import DistributedAvl.Insertion.Words

namespace DistributedAvl

open Tally

namespace NodePtr

variable {l r t : NodePtr} {h : Int} {x w v : Word} {n : Int} {ws : List Word}

-- A node that a blank token has counted, reached by a word: setWord counts on from there.
def takesOver : NodePtr → Word → Bool
  | null, _ => false
  | node l h x n r, w =>
      if (node l h x n r).holds then
        if w = x then false else if x < w then r.takesOver w else l.takesOver w
      else decide (n ≠ 0)
  | remote root, w => root.takesOver w

def countedFor (x : Word) (n : Int) : Int := if x = [] then 0 else n

-- The same tree without what blank tokens have counted.
def bare : NodePtr → NodePtr
  | null => null
  | node l h x n r => node l.bare h x (countedFor x n) r.bare
  | remote root => remote root.bare

@[simp] theorem countedFor_twice (x : Word) (n : Int) :
    countedFor x (countedFor x n) = countedFor x n := by
  simp only [countedFor]
  split <;> rfl

theorem countedFor_word (hx : x ≠ []) (n : Int) : countedFor x n = n := if_neg hx

@[simp] theorem bare_present (t : NodePtr) : t.bare.present = t.present := by cases t <;> rfl

@[simp] theorem bare_height (t : NodePtr) : t.bare.heightOf = t.heightOf := by
  induction t with
  | null => rfl
  | remote root ih => exact ih
  | node l h x n r _ _ => rfl

theorem bare_holds (l' r' : NodePtr) :
    (node l' h x (countedFor x n) r').holds = (node l h x n r).holds := by
  by_cases hx : x = []
  · simp [holds, hx]
  · rw [countedFor_word hx]
    rfl

theorem bare_local : t.bare.AllLocal ↔ t.AllLocal := by
  induction t with
  | null => exact Iff.rfl
  | remote root => exact Iff.rfl
  | node l h x n r ihl ihr => exact and_congr ihl ihr

theorem bare_entries (ht : t.AllLocal) : t.bare.entries = t.entries := by
  induction t with
  | null => rfl
  | remote root => exact ht.elim
  | node l h x n r ihl ihr =>
      rw [bare, entries, entries, ihl ht.1, ihr ht.2, bare_holds (l := l) (r := r)]
      by_cases hx : x = []
      · simp [holds, hx]
      · rw [countedFor_word hx]

theorem bare_search (ht : t.AllLocal) (hv : v ≠ []) : t.bare.search v = t.search v := by
  induction t with
  | null => rfl
  | remote root => exact ht.elim
  | node l h x n r ihl ihr =>
      rw [bare, search, search, ihl ht.1, ihr ht.2, bare_holds (l := l) (r := r)]
      split
      · rename_i heq
        rw [countedFor_word (by rw [← Word.compare_eq_zero.mp heq]; exact hv)]
      · rfl

theorem ground_bare (ht : t.AllLocal) : t.bare.ground = t.ground.bare := by
  rcases ht.cases with rfl | ⟨l, h, x, n, r, rfl, -, -⟩ <;> rfl

theorem pulled_bare (ht : t.AllLocal) : t.bare.pulled = t.pulled.bare := by
  rcases ht.cases with rfl | ⟨a, k, y, m, b, rfl, ha, hb⟩
  · rfl
  · simp only [bare, pulled, bare_present, ground_bare ha, ground_bare hb]
    split
    · rfl
    · split <;> rfl

theorem pushedRight_bare (ht : t.AllLocal) (x : Word) (n : Int) :
    t.bare.pushedRight x (countedFor x n) = (t.pushedRight x n).bare := by
  induction t generalizing x n with
  | null => rfl
  | remote root => exact ht.elim
  | node l h y m r _ ihr =>
      rw [bare, pushedRight, pushedRight, bare_holds (l := l) (r := r), bare_present,
        ground_bare ht.1, ihr ht.2]
      split
      · split <;> rfl
      · rfl

theorem pushedLeft_bare (ht : t.AllLocal) (x : Word) (n : Int) :
    t.bare.pushedLeft x (countedFor x n) = (t.pushedLeft x n).bare := by
  induction t generalizing x n with
  | null => rfl
  | remote root => exact ht.elim
  | node l h y m r ihl _ =>
      rw [bare, pushedLeft, pushedLeft, bare_holds (l := l) (r := r), bare_present,
        ground_bare ht.2, ihl ht.1]
      split
      · split <;> rfl
      · rfl

theorem hungLeft_bare {tree : NodePtr} (ht : t.AllLocal) (htree : tree.AllLocal) :
    t.bare.hungLeft tree.bare = (t.hungLeft tree).bare := by
  rcases ht.cases with rfl | ⟨l, h, x, n, r, rfl, -, -⟩
  · rfl
  · simp only [bare, hungLeft, bare_present, bare_height, ground_bare htree]
    split <;> rfl

theorem hungRight_bare {tree : NodePtr} (ht : t.AllLocal) (htree : tree.AllLocal) :
    t.bare.hungRight tree.bare = (t.hungRight tree).bare := by
  rcases ht.cases with rfl | ⟨l, h, x, n, r, rfl, -, -⟩
  · rfl
  · simp only [bare, hungRight, bare_present, bare_height, ground_bare htree]
    split <;> rfl

theorem leveled_bare (l r : NodePtr) (x : Word) (n : Int) :
    (leveled l x n r).bare = leveled l.bare x (countedFor x n) r.bare := by
  simp [leveled, bare]

theorem uncovered_bare (ht : t.AllLocal) (b : Bool) :
    (if b then null else t.bare.pulled) = (if b then null else t.pulled).bare := by
  cases b with
  | false => exact pulled_bare ht
  | true => rfl

theorem rotateRight_bare (ht : t.AllLocal) : t.bare.rotateRight = t.rotateRight.map bare := by
  rcases ht.cases with rfl | ⟨l, h, x, n, c, rfl, hl, hc⟩
  · rfl
  · rcases hl.cases with rfl | ⟨a, k, y, m, b, rfl, ha, hb⟩
    · rfl
    · rw [rotateRight_local ha hb hc, bare, bare,
        rotateRight_local (bare_local.mpr ha) (bare_local.mpr hb) (bare_local.mpr hc),
        Option.map_some, rotatedRight, rotatedRight, bare_present, bare_present,
        uncovered_bare ha, pushedRight_bare hc, hungLeft_bare (pushedRight_local hc x n) hb,
        leveled_bare]

theorem rotateLeft_bare (ht : t.AllLocal) : t.bare.rotateLeft = t.rotateLeft.map bare := by
  rcases ht.cases with rfl | ⟨c, h, x, n, r, rfl, hc, hr⟩
  · rfl
  · rcases hr.cases with rfl | ⟨a, k, y, m, b, rfl, ha, hb⟩
    · rfl
    · rw [rotateLeft_local hc ha hb, bare, bare,
        rotateLeft_local (bare_local.mpr hc) (bare_local.mpr ha) (bare_local.mpr hb),
        Option.map_some, rotatedLeft, rotatedLeft, bare_present, bare_present,
        uncovered_bare hb, pushedLeft_bare hc, hungRight_bare (pushedLeft_local hc x n) ha,
        leveled_bare]

theorem smaller_bare (ht : t.AllLocal) (w : Word) : t.bare.smaller w = t.smaller w := by
  rcases ht.cases with rfl | ⟨l, h, x, n, r, rfl, -, -⟩
  · rfl
  · simp only [bare, smaller, present_node, hasWord_node, bare_holds (l := l) (r := r), getWord]

theorem balance_bare (ht : t.AllLocal) (b : Int) (w : Word) :
    t.bare.balance b w = (t.balance b w).map bare := by
  rcases ht.cases with rfl | ⟨l, h, x, n, r, rfl, hl, hr⟩
  · rfl
  · simp only [bare, balance, smaller_bare hl, smaller_bare hr, rotateRight_bare hr,
      rotateLeft_bare hl]
    split
    · cases r.smaller w with
      | none => rfl
      | some s =>
          cases s with
          | false => exact rotateLeft_bare (t := node l h x n r) ht
          | true =>
              cases hrot : r.rotateRight with
              | none => simp
              | some r' =>
                  have hlocal : (node l h x n r').AllLocal := ⟨hl, rotateRight_keeps hr hrot⟩
                  have hcomm := rotateLeft_bare hlocal
                  rw [bare] at hcomm
                  simp [hcomm]
    · split
      · cases l.smaller w with
        | none => rfl
        | some s =>
            cases s with
            | true => exact rotateRight_bare (t := node l h x n r) ht
            | false =>
                cases hrot : l.rotateLeft with
                | none => simp
                | some l' =>
                    have hlocal : (node l' h x n r).AllLocal := ⟨rotateLeft_keeps hl hrot, hr⟩
                    have hcomm := rotateRight_bare hlocal
                    rw [bare] at hcomm
                    simp [hcomm]
      · rfl

@[simp] theorem bare_twice (t : NodePtr) : t.bare.bare = t.bare := by
  induction t with
  | null => rfl
  | remote root ih => rw [bare, bare, ih]
  | node l h x n r ihl ihr => simp only [bare, ihl, ihr, countedFor_twice]

theorem balance_alike {s s' : NodePtr} {b : Int} (ht : t.AllLocal) (hs : t.bare = s.bare)
    (hbal : s.balance b w = some s') :
    ∃ t', t.balance b w = some t' ∧ t'.bare = s'.bare ∧ t'.AllLocal := by
  have hslocal : s.AllLocal := bare_local.mp (hs ▸ bare_local.mpr ht)
  have hmap : (t.balance b w).map bare = some s'.bare := by
    rw [← balance_bare ht, hs, balance_bare hslocal, hbal, Option.map_some]
  obtain ⟨t', ht', hbare⟩ := Option.map_eq_some_iff.mp hmap
  exact ⟨t', ht', hbare, balance_keeps ht ht'⟩

theorem rebalance_alike {s s' : NodePtr} (ht : t.AllLocal) (hs : t.bare = s.bare)
    (hbal : (s.updateHeight.bind fun p => p.1.balance p.2 w) = some s') :
    ∃ t', (t.updateHeight.bind fun p => p.1.balance p.2 w) = some t' ∧ t'.bare = s'.bare ∧
      t'.AllLocal := by
  have hslocal : s.AllLocal := bare_local.mp (hs ▸ bare_local.mpr ht)
  rcases hslocal.cases with rfl | ⟨l', h', x', n', r', rfl, hl', hr'⟩
  · cases hbal
  · rcases ht.cases with rfl | ⟨l, h, x, n, r, rfl, hl, hr⟩
    · cases hs
    · simp only [bare, node.injEq] at hs
      obtain ⟨hleft, -, rfl, hcount, hright⟩ := hs
      have hlh : l'.heightOf = l.heightOf := by rw [← bare_height, ← hleft, bare_height]
      have hrh : r'.heightOf = r.heightOf := by rw [← bare_height, ← hright, bare_height]
      rw [updateHeight_local hl' hr', Option.bind_some, hlh, hrh] at hbal
      rw [updateHeight_local hl hr, Option.bind_some]
      have halike : (leveled l x n r).bare = (leveled l' x n' r').bare := by
        rw [leveled_bare, leveled_bare, hleft, hcount, hright]
      exact balance_alike ⟨hl, hr⟩ halike hbal

theorem insertInto_bare {s' : NodePtr} (ht : t.AllLocal) (hw : w ≠ [] → t.takesOver w = false)
    (hins : t.bare.insertInto w = some s') :
    ∃ t', t.insertInto w = some t' ∧ t'.bare = s'.bare ∧ t'.AllLocal := by
  induction t generalizing s' with
  | null => exact ⟨create w, rfl, by cases hins; rfl, trivial, trivial⟩
  | remote root => exact ht.elim
  | node l h x n r ihl ihr =>
      obtain ⟨hl, hr⟩ := id ht
      rw [bare, insertInto_node] at hins
      simp only [insertInto_node]
      have hheld := bare_holds (l := l) (h := h) (x := x) (n := n) (r := r) l.bare r.bare
      by_cases hh : (node l h x n r).holds = true
      · rw [hh] at hheld
        have hx : x ≠ [] := (by simpa [holds] using hh : (-1 < h ∧ n ≠ 0) ∧ x ≠ []).2
        rcases lt_trichotomy x w with hlt | rfl | hlt
        · rw [insert_right_eq hheld hlt] at hins
          obtain ⟨s₁, hs₁, hrest⟩ := Option.bind_eq_some_iff.mp hins
          have huntaken : w ≠ [] → r.takesOver w = false := by
            simpa [takesOver, hh, hlt.ne', hlt] using hw
          obtain ⟨r', hr', hbare, hlocal⟩ := ihr hr huntaken hs₁
          have hnode : (node l h x n r').AllLocal := ⟨hl, hlocal⟩
          have halike : (node l h x n r').bare = (node l.bare h x (countedFor x n) s₁).bare := by
            simp [bare, hbare]
          rw [insert_right_eq hh hlt, hr', Option.bind_some]
          exact rebalance_alike hnode halike hrest
        · rw [insert_here hheld] at hins
          cases hins
          refine ⟨_, insert_here hh, ?_, hl, hr⟩
          simp [bare, countedFor_word hx]
        · rw [insert_left_eq hheld hlt] at hins
          obtain ⟨s₁, hs₁, hrest⟩ := Option.bind_eq_some_iff.mp hins
          have huntaken : w ≠ [] → l.takesOver w = false := by
            simpa [takesOver, hh, hlt.ne, hlt.not_gt] using hw
          obtain ⟨l', hl', hbare, hlocal⟩ := ihl hl huntaken hs₁
          have hnode : (node l' h x n r).AllLocal := ⟨hlocal, hr⟩
          have halike : (node l' h x n r).bare = (node s₁ h x (countedFor x n) r.bare).bare := by
            simp [bare, hbare]
          rw [insert_left_eq hh hlt, hl', Option.bind_some]
          exact rebalance_alike hnode halike hrest
      · rw [insert_blank (by rwa [hheld])] at hins
        cases hins
        refine ⟨_, insert_blank hh, ?_, hl, hr⟩
        rcases eq_or_ne w [] with rfl | hne
        · simp [bare, countedFor]
        · have hzero : n = 0 := by simpa [takesOver, hh] using hw hne
          subst hzero
          simp [bare, countedFor]

theorem Shaped.bare_eq (ht : Shaped t) : t.bare = t := by
  induction ht with
  | nil => rfl
  | blank => rfl
  | bin _ _ _ _ _ _ hx ihl ihr => rw [bare, ihl, ihr, countedFor_word hx]

theorem bare_grows (t : NodePtr) (w : Word) : t.bare.grows w = t.grows w := by
  induction t with
  | null => rfl
  | remote root _ => rfl
  | node l h x n r ihl ihr =>
      simp only [bare, grows, bare_holds (l := l) (r := r), bare_height, ihl, ihr]

theorem bare_pivot (t : NodePtr) (w : Word) : t.bare.pivot w = (t.pivot w).map bare := by
  induction t with
  | null => rfl
  | remote root _ => rfl
  | node l h x n r ihl ihr =>
      simp only [bare, pivot, bare_holds (l := l) (r := r), bare_height, bare_grows, ihl, ihr]
      split_ifs <;> rfl

theorem bare_leftStaysEmpty (t : NodePtr) (w : Word) :
    t.bare.leftStaysEmpty w = t.leftStaysEmpty w := by
  cases t <;> simp [bare, leftStaysEmpty]

theorem bare_rightStaysEmpty (t : NodePtr) (w : Word) :
    t.bare.rightStaysEmpty w = t.rightStaysEmpty w := by
  cases t <;> simp [bare, rightStaysEmpty]

theorem bare_pullsInOrder (t : NodePtr) (w : Word) :
    t.bare.pullsInOrder w = t.pullsInOrder w := by
  cases t with
  | null => rfl
  | remote root => rfl
  | node l h x n r =>
      cases l <;> cases r <;>
        simp only [bare, pullsInOrder, bare_leftStaysEmpty, bare_rightStaysEmpty, bare_present]

theorem bare_rotatesInOrder (t : NodePtr) (w : Word) :
    t.bare.rotatesInOrder w = t.rotatesInOrder w := by
  rw [rotatesInOrder, rotatesInOrder, bare_pivot]
  cases t.pivot w with
  | none => rfl
  | some p => exact bare_pullsInOrder p w

theorem blank_rotates {y : Word} {m : Int} (hx : x ≠ []) (hn : 0 < n) (hy : y ≠ []) (hm : 0 < m) :
    (node (node null 0 y m null) 1 x n null).insert [] =
      some (node (create []) 1 y m (node null 0 x n null)) := by
  have hheldx : (node (node null 0 y m null) 1 x n null).holds = true :=
    holds_node (by decide) hn hx
  have hheldy : (node null 0 y m null).holds = true := holds_node (by decide) hm hy
  have hblank : (create []).AllLocal := ⟨trivial, trivial⟩
  have hgrown : (node (create []) 1 y m null).AllLocal := ⟨hblank, trivial⟩
  have hinto : (node null 0 y m null).insertInto [] = some (node (create []) 1 y m null) :=
    (insert_left hheldy trivial (Word.nil_lt hy) hblank rfl).trans
      (balance_still [] (by decide) (by decide))
  have hsmall : (node (create []) 1 y m null).smaller [] = some true := by
    rw [smaller_node (holds_node (by decide) hm hy), decide_eq_true (Word.nil_lt hy)]
  have htwo : null.heightOf - (node (create []) 1 y m null).heightOf = -2 := rfl
  rw [insert_left hheldx trivial (Word.nil_lt hx) hgrown hinto, htwo]
  simp only [leveled, balance, hsmall]
  exact rotateRight_local hblank allLocal_null allLocal_null 2 1 x y n m

-- A blank token goes all the way to the left. Where it makes the tree rotate in order, the node
-- that leans had a single leaf on its left.
theorem insertInto_blank (ht : Shaped t) (hC : t.rotatesInOrder [] = true) :
    ∃ t', t.insertInto [] = some t' ∧ Shaped t'.bare ∧ t'.heightOf = t.heightOf + t.lift [] ∧
      t'.entries = t.entries := by
  induction ht with
  | nil => exact ⟨_, rfl, .blank, rfl, rfl⟩
  | blank => exact ⟨_, rfl, .blank, rfl, rfl⟩
  | @bin l r h x n hl hr hh hlr hrl hn hx ihl _ =>
      have hf : Filled l h x n r := ⟨hl, hr, hh, hlr, hrl, hn, hx⟩
      have hgr := hr.height_ge
      have hfirst : ([] : Word) < x := Word.nil_lt hx
      simp only [insertInto_node]
      rw [rotatesInOrder, pivot_left hf.holds hfirst] at hC
      split at hC
      · rename_i hlean
        obtain ⟨a, k, y, m, b, rfl, hlf, ha, hb, hside⟩ := tip_left hf hlean.1 (by omega)
        have hyfirst : ([] : Word) < y := Word.nil_lt hlf.worded
        obtain rfl : a = null := by
          cases hlf.left with
          | nil => rfl
          | blank => simp [pullsInOrder, hfirst.not_gt, hyfirst.not_gt, leftStaysEmpty] at hC
          | bin => simp [pullsInOrder, hfirst.not_gt, hyfirst.not_gt, leftStaysEmpty] at hC
        obtain rfl : r = null := hr.height_neg ha.symm
        obtain rfl : b = null := hlf.right.height_neg hb
        obtain rfl : k = 0 := hlf.height
        obtain rfl : h = 1 := hh
        refine ⟨_, blank_rotates hx hn hlf.worded hlf.counted, ?_, ?_, ?_⟩
        · have hright : Shaped (node null 0 x n null) :=
            .bin .nil .nil rfl (by decide) (by decide) hn hx
          rw [bare, hright.bare_eq, countedFor_word hlf.worded]
          have hleaves : (create []).bare.heightOf = (node null 0 x n null).heightOf := rfl
          exact .bin .blank hright rfl (by omega) (by omega) hlf.counted hlf.worded
        · rw [lift_left hf.holds hfirst]
          rfl
        · simp [entries, holds, create, hx, hn.ne', hlf.worded, hlf.counted.ne']
      · rename_i hcalm
        obtain ⟨l', hl', hshape, hheight, hent⟩ := ihl hC
        have hlocal : l'.AllLocal := bare_local.mp hshape.allLocal
        obtain ⟨hins, hbound, hup⟩ := climb_left_local hf hfirst hlocal hl' hheight hcalm
        refine ⟨_, hins, ?_, hup, ?_⟩
        · rw [leveled_bare, hr.bare_eq, countedFor_word hx]
          refine .bin hshape hr rfl ?_ ?_ hn hx <;> rw [bare_height]
          · exact hbound.1
          · exact hbound.2
        · rw [entries_leveled hx hn (by omega), hent, entries_node hf.holds]

def worded (ws : List Word) : List Word := ws.filter fun w => w ≠ []

@[simp] theorem worded_blank (ws : List Word) : worded (ws ++ [[]]) = worded ws := by
  simp [worded]

theorem worded_word (hw : w ≠ []) (ws : List Word) : worded (ws ++ [w]) = worded ws ++ [w] := by
  simp [worded, hw]

-- The tree has counted the words of the past and not its blank tokens.
structure Tracks (past : List Word) (t : NodePtr) : Prop where
  shaped : Shaped t.bare
  present : t.present = true
  counted : t.entries = tallyAll (worded past)

theorem Tracks.isLocal (ht : Tracks ws t) : t.AllLocal := bare_local.mp ht.shaped.allLocal

theorem Tracks.bare_entries (ht : Tracks ws t) : t.bare.entries = tallyAll (worded ws) := by
  rw [NodePtr.bare_entries ht.isLocal, ht.counted]

theorem Tracks.still_present {s' t' : NodePtr} (ht : Tracks ws t) (hshape : Shaped s'.bare)
    (hbare : t'.bare = s'.bare) (hheight : s'.heightOf = t.bare.heightOf + t.bare.lift w) :
    t'.present = true := by
  have hpres := ht.shaped.present_iff.mp (by rw [bare_present, ht.present])
  rw [← bare_present, hbare, hshape.present_iff, bare_height]
  rcases t.bare.lift_cases w with ⟨-, hd⟩ | ⟨-, hd⟩ <;> omega

theorem tracks_first (w : Word) : Tracks [w] (create w) := by
  rcases eq_or_ne w [] with rfl | hw
  · exact ⟨.blank, rfl, rfl⟩
  · have hleaf : Shaped (create w) := .bin .nil .nil rfl (by decide) (by decide) (by decide) hw
    refine ⟨by rwa [hleaf.bare_eq], rfl, ?_⟩
    rw [show [w] = [] ++ [w] from rfl, worded_word hw]
    exact entries_ground_leaf w 1 hw (by decide)

theorem tracks_blank (ht : Tracks ws t) (hC : t.rotatesInOrder [] = true) :
    ∃ t', t.insert [] = some t' ∧ Tracks (ws ++ [[]]) t' := by
  rw [← bare_rotatesInOrder] at hC
  obtain ⟨s', hins, hshape, hheight, hent⟩ := insertInto_blank ht.shaped hC
  obtain ⟨t', hins', hbare, hlocal⟩ :=
    insertInto_bare ht.isLocal (fun hne => absurd rfl hne) hins
  rw [insertInto, if_pos ht.present] at hins'
  have hs'local : s'.AllLocal := bare_local.mp hshape.allLocal
  refine ⟨t', hins', by rwa [hbare], ht.still_present hshape hbare hheight, ?_⟩
  rw [worded_blank, ← NodePtr.bare_entries hlocal, hbare, NodePtr.bare_entries hs'local, hent,
    ht.bare_entries]

theorem tracks_word (ht : Tracks ws t) (hw : w ≠ []) (hC : t.rotatesInOrder w = true)
    (hfree : t.takesOver w = false) : ∃ t', t.insert w = some t' ∧ Tracks (ws ++ [w]) t' := by
  rw [← bare_rotatesInOrder] at hC
  obtain ⟨s', hins, hshape, hheight, htally⟩ := insert_tallied hw ht.shaped hC
  obtain ⟨t', hins', hbare, hlocal⟩ := insertInto_bare ht.isLocal (fun _ => hfree) hins
  rw [insertInto, if_pos ht.present] at hins'
  have hshape' : Shaped s'.bare := by rwa [hshape.bare_eq]
  refine ⟨t', hins', by rwa [hbare], ht.still_present hshape' hbare hheight, ?_⟩
  have hinc := tallyAll_increasing (worded ws)
  rw [worded_word hw, tallyAll_append, ← NodePtr.bare_entries hlocal, hbare, hshape.bare_eq,
    htally (by rwa [ht.bare_entries]), ht.bare_entries]

theorem insertAll_blanks
    (hrun : Runs.Along insert
      (fun t w => t.rotatesInOrder w = true ∧ (w ≠ [] → t.takesOver w = false)) fresh ws) :
    ∃ t, insertAll fresh ws = some t ∧
      ∀ v, v ≠ [] → t.search v = look v (tallyAll (worded ws)) := by
  obtain ⟨t, ht, ⟨rfl, rfl⟩ | htracks⟩ :=
    Runs.run_history (I := fun past t => past = [] ∧ t = fresh ∨ Tracks past t)
      (by
        rintro past t w (⟨rfl, rfl⟩ | htracks) ⟨hC, hfree⟩
        · exact ⟨create w, rfl, Or.inr (tracks_first w)⟩
        · rcases eq_or_ne w [] with rfl | hw
          · obtain ⟨t', hins, ht'⟩ := tracks_blank htracks hC
            exact ⟨t', hins, Or.inr ht'⟩
          · obtain ⟨t', hins, ht'⟩ := tracks_word htracks hw hC (hfree hw)
            exact ⟨t', hins, Or.inr ht'⟩)
      ws [] fresh (Or.inl ⟨rfl, rfl⟩) hrun
  · refine ⟨fresh, ht, fun v _ => ?_⟩
    cases v <;> rfl
  · refine ⟨t, ht, fun v hv => ?_⟩
    have hinc : Increasing t.bare.entries := by
      rw [htracks.bare_entries]
      exact tallyAll_increasing _
    rw [← bare_search htracks.isLocal hv, search_entries htracks.shaped hinc, htracks.bare_entries]
    rfl

def BlanksIgnored (ws : List Word) : Prop :=
  ∀ v, v ≠ [] → (insertAll fresh ws).map (fun t => t.search v) =
    (insertAll fresh (worded ws)).map (fun t => t.search v)

theorem worded_all (hws : [] ∉ ws) : worded ws = ws := by
  refine List.filter_eq_self.mpr fun w hw => ?_
  exact decide_eq_true fun h => hws (h ▸ hw)

theorem blanks_ignored
    (hrun : [] ∉ ws ∨
      Runs.Along insert
          (fun t w => t.rotatesInOrder w = true ∧ (w ≠ [] → t.takesOver w = false)) fresh ws ∧
        Runs.Along insert (fun t w => t.rotatesInOrder w = true) fresh (worded ws)) :
    BlanksIgnored ws ∧ ([] ∈ ws → ∃ t, insertAll fresh ws = some t) := by
  rcases hrun with hws | ⟨hrun, hwordedRun⟩
  · rw [BlanksIgnored, worded_all hws]
    exact ⟨fun _ _ => rfl, fun h => absurd h hws⟩
  · have hkept : ∀ w ∈ worded ws, w ≠ [] := by simp [worded]
    obtain ⟨t, ht, hsearch⟩ := insertAll_blanks hrun
    obtain ⟨s, hs, hent, hsearch'⟩ := insertAll_entries hkept hwordedRun
    refine ⟨fun v hv => ?_, fun _ => ⟨t, ht⟩⟩
    rw [ht, hs, Option.map_some, Option.map_some, hsearch v hv, hsearch' v, hent]

theorem blanks_ignored_between :
    BlanksIgnored [[98], [], [99], [], [100], [99]] ∧
      ∃ t, insertAll fresh [[98], [], [99], [], [100], [99]] = some t := by
  obtain ⟨hsame, hdone⟩ :=
    @blanks_ignored [[98], [], [99], [], [100], [99]] (Or.inr (by decide))
  exact ⟨hsame, hdone (by decide)⟩

-- The blank token's counter stays at the node that the word then takes over.
theorem blank_counted : ¬ ∀ ws, BlanksIgnored ws := by
  intro h
  have hcount := h [[], [97]] [97] (by decide)
  have hblank : (insertAll fresh [[], [97]]).map (fun t => t.search [97]) = some (some 2) := by
    decide
  have hword : (insertAll fresh (worded [[], [97]])).map (fun t => t.search [97]) =
      some (some 1) := by decide
  rw [hblank, hword] at hcount
  exact absurd hcount (by decide)

end NodePtr

end DistributedAvl
