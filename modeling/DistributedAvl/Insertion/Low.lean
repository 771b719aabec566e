import DistributedAvl.Insertion.Rebalance
import DistributedAvl.Tree.View

namespace DistributedAvl

namespace NodePtr

variable {w : Word}

theorem shaped_node {l r : NodePtr} {h : Int} {x : Word} {n : Int} (hx : x ≠ []) (hn : 0 < n) :
    Shaped (node l h x n r) ↔ Shaped l ∧ Shaped r ∧ h = max l.heightOf r.heightOf + 1 ∧
      l.heightOf ≤ r.heightOf + 1 ∧ r.heightOf ≤ l.heightOf + 1 := by
  constructor
  · intro h
    cases h with
    | blank => exact absurd rfl hx
    | bin hl hr hh hlr hrl _ _ => exact ⟨hl, hr, hh, hlr, hrl⟩
  · rintro ⟨hl, hr, hh, hlr, hrl⟩
    exact .bin hl hr hh hlr hrl hn hx

theorem Shaped.lowest_pair {s t : NodePtr} (hs : Shaped s) (ht : Shaped t)
    (heq : t.heightOf = s.heightOf) (hlow : s.heightOf ≤ 0) :
    s = null ∧ t = null ∨ s.heightOf = 0 ∧ t.heightOf = 0 := by
  have hge := hs.height_ge
  rcases (by omega : s.heightOf = -1 ∨ s.heightOf = 0) with h | h
  · exact Or.inl ⟨hs.height_neg h, ht.height_neg (heq.trans h)⟩
  · exact Or.inr ⟨h, heq.trans h⟩

theorem lowest_graft {t : NodePtr} (ht : Shaped t) (h : t.heightOf ≤ 0) (hg : t.grows w = true) :
    t = null ∧ t.graft w = create w ∨ ∃ z q, t = node null 0 z q null ∧ z ≠ [] ∧ 0 < q ∧
      (z < w ∧ t.graft w = node null 1 z q (create w) ∨
        w < z ∧ t.graft w = node (create w) 1 z q null) := by
  rcases ht.lowest_pair ht rfl h with ⟨rfl, -⟩ | ⟨h₀, -⟩
  · exact Or.inl ⟨rfl, rfl⟩
  · obtain ⟨z, q, rfl, ⟨rfl, rfl⟩ | ⟨hz, hq⟩⟩ := ht.height_zero h₀
    · simp [grows, holds] at hg
    · refine Or.inr ⟨z, q, rfl, hz, hq, ?_⟩
      have hf : Filled null 0 z q null := ⟨.nil, .nil, rfl, by decide, by decide, hq, hz⟩
      obtain ⟨-, ⟨hlt, -⟩ | ⟨hlt, -⟩⟩ := grows_node hg
      · exact Or.inl ⟨hlt, graft_right hf hlt⟩
      · exact Or.inr ⟨hlt, graft_left hf hlt⟩

theorem graft_present {t : NodePtr} (ht : Shaped t) (h : t.heightOf ≤ 0) (hg : t.grows w = true) :
    (t.graft w).present = true := by
  rcases lowest_graft ht h hg with ⟨-, hgr⟩ | ⟨z, q, -, -, -, ⟨-, hgr⟩ | ⟨-, hgr⟩⟩ <;>
    rw [hgr] <;> rfl

section Lowered

variable {a b l r : NodePtr} {x : Word} {n : Int}

theorem lowered_left (hx : x ≠ []) (hn : 0 < n) (hl : Shaped l) (ha : Shaped a)
    (hal : a.heightOf = l.heightOf) (hlow : l.heightOf ≤ 0) :
    Shaped ((l.pushedLeft x n).hungRight a) ∧
      ((l.pushedLeft x n).hungRight a).heightOf = l.heightOf + 1 ∧
      ((l.pushedLeft x n).hungRight a).entries = l.entries ++ (x, n) :: a.entries := by
  rcases hl.lowest_pair ha hal hlow with ⟨rfl, rfl⟩ | ⟨hl₀, ha₀⟩
  · simp [pushedLeft, hungRight, heightOf, entries, holds, shaped_node, Shaped.nil, hx, hn, hn.ne']
  · obtain ⟨v, q, rfl, -⟩ := ha.height_zero ha₀
    obtain ⟨u, p, rfl, ⟨rfl, rfl⟩ | ⟨hu, hp⟩⟩ := hl.height_zero hl₀
    · simp [pushedLeft, hungRight, ground, heightOf, entries, holds, shaped_node, Shaped.nil, ha,
        hx, hn, hn.ne']
    · simp [pushedLeft, hungRight, ground, heightOf, entries, holds, shaped_node, Shaped.nil, ha,
        hx, hn, hn.ne', hu, hp, hp.ne']

theorem lowered_right (hx : x ≠ []) (hn : 0 < n) (hr : Shaped r) (hb : Shaped b)
    (hbr : b.heightOf = r.heightOf) (hlow : r.heightOf ≤ 0) :
    Shaped ((r.pushedRight x n).hungLeft b) ∧
      ((r.pushedRight x n).hungLeft b).heightOf = r.heightOf + 1 ∧
      ((r.pushedRight x n).hungLeft b).entries = b.entries ++ (x, n) :: r.entries := by
  rcases hr.lowest_pair hb hbr hlow with ⟨rfl, rfl⟩ | ⟨hr₀, hb₀⟩
  · simp [pushedRight, hungLeft, heightOf, entries, holds, shaped_node, Shaped.nil, hx, hn, hn.ne']
  · obtain ⟨v, q, rfl, -⟩ := hb.height_zero hb₀
    obtain ⟨u, p, rfl, ⟨rfl, rfl⟩ | ⟨hu, hp⟩⟩ := hr.height_zero hr₀
    · simp [pushedRight, hungLeft, ground, heightOf, entries, holds, shaped_node, Shaped.nil, hb,
        hx, hn, hn.ne']
    · simp [pushedRight, hungLeft, ground, heightOf, entries, holds, shaped_node, Shaped.nil, hb,
        hx, hn, hn.ne', hu, hp, hp.ne']

theorem pulled_grown {c : NodePtr} (hw : w ≠ []) (hc : Shaped c) (hlow : c.heightOf ≤ 0)
    (hg : c.grows w = true) :
    Shaped (c.graft w).pulled ∧ (c.graft w).pulled.heightOf = c.heightOf + 1 := by
  rcases lowest_graft hc hlow hg with ⟨rfl, hgr⟩ | ⟨z, q, rfl, hz, hq, ⟨-, hgr⟩ | ⟨-, hgr⟩⟩
  · simp [hgr, create, pulled, heightOf, shaped_node, Shaped.nil, hw]
  · simp [hgr, create, pulled, ground, heightOf, shaped_node, Shaped.nil, hw, hz, hq]
  · simp [hgr, create, pulled, ground, heightOf, shaped_node, Shaped.nil, hw, hz, hq]

end Lowered

section LowPivot

variable {a b c l r : NodePtr} {x y : Word} {n m : Int}

def LowShaped (k : Int) (t : NodePtr) : Prop := Shaped t ∧ t.heightOf = k + 2

theorem leveled_low {k : Int} (hl : Shaped l) (hr : Shaped r) (hlk : l.heightOf = k + 1)
    (hrk : r.heightOf = k + 1) (hx : x ≠ []) (hn : 0 < n) : LowShaped k (leveled l x n r) :=
  ⟨.bin hl hr rfl (by omega) (by omega) hn hx, by simp only [leveled, heightOf]; omega⟩

theorem rotatedLeft_graft (hc : Shaped c) (hlow : c.heightOf ≤ 0) (hg : c.grows w = true) :
    (leveled l x n (leveled b y m (c.graft w))).rotatedLeft =
      leveled ((l.pushedLeft x n).hungRight b) y m (c.graft w).pulled := by
  simp [leveled, rotatedLeft, graft_present hc hlow hg]

theorem rotatedRight_graft (ha : Shaped a) (hlow : a.heightOf ≤ 0) (hg : a.grows w = true) :
    (leveled (leveled (a.graft w) y m b) x n r).rotatedRight =
      leveled (a.graft w).pulled y m ((r.pushedRight x n).hungLeft b) := by
  simp [leveled, rotatedRight, graft_present ha hlow hg]

theorem low_right_right (hw : w ≠ []) (hx : x ≠ []) (hn : 0 < n) (hy : y ≠ []) (hm : 0 < m)
    (hl : Shaped l) (hb : Shaped b) (hc : Shaped c) (hbl : b.heightOf = l.heightOf)
    (hcl : c.heightOf = l.heightOf) (hlow : l.heightOf ≤ 0) (hg : c.grows w = true) :
    LowShaped l.heightOf (leveled l x n (leveled b y m (c.graft w))).rotatedLeft := by
  obtain ⟨hdown, hdownh, -⟩ := lowered_left hx hn hl hb hbl hlow
  obtain ⟨hup, huph⟩ := pulled_grown hw hc (by omega) hg
  rw [rotatedLeft_graft hc (by omega) hg]
  exact leveled_low hdown hup hdownh (by omega) hy hm

theorem low_left_left (hw : w ≠ []) (hx : x ≠ []) (hn : 0 < n) (hy : y ≠ []) (hm : 0 < m)
    (ha : Shaped a) (hb : Shaped b) (hr : Shaped r) (har : a.heightOf = r.heightOf)
    (hbr : b.heightOf = r.heightOf) (hlow : r.heightOf ≤ 0) (hg : a.grows w = true) :
    LowShaped r.heightOf (leveled (leveled (a.graft w) y m b) x n r).rotatedRight := by
  obtain ⟨hdown, hdownh, -⟩ := lowered_right hx hn hr hb hbr hlow
  obtain ⟨hup, huph⟩ := pulled_grown hw ha (by omega) hg
  rw [rotatedRight_graft ha (by omega) hg]
  exact leveled_low hup hdown (by omega) hdownh hy hm

theorem low_right_left (hw : w ≠ []) (hx : x ≠ []) (hn : 0 < n) (hy : y ≠ []) (hm : 0 < m)
    (hl : Shaped l) (hb : Shaped b) (hc : Shaped c) (hbl : b.heightOf = l.heightOf)
    (hcl : c.heightOf = l.heightOf) (hlow : l.heightOf ≤ 0) (hg : b.grows w = true) :
    LowShaped l.heightOf
      (leveled l x n (leveled (b.graft w) y m c).rotatedRight).rotatedLeft := by
  rcases lowest_graft hb (by omega) hg with ⟨rfl, hgr⟩ | ⟨z, q, rfl, hz, hq, hside⟩
  · obtain rfl := hl.height_neg hbl.symm
    obtain rfl := hc.height_neg hcl
    simp [hgr, LowShaped, create, leveled, rotatedLeft, rotatedRight, pushedLeft, pushedRight,
      hungRight, hungLeft, pulled, heightOf, shaped_node, Shaped.nil, hw, hx, hn, hy, hm]
  · obtain ⟨u, p, rfl, hu⟩ := hl.height_zero hbl.symm
    obtain ⟨v, j, rfl, hv⟩ := hc.height_zero hcl
    rcases hu with ⟨rfl, rfl⟩ | ⟨hu, hp⟩ <;> rcases hv with ⟨rfl, rfl⟩ | ⟨hv, hj⟩ <;>
      rcases hside with ⟨-, hgr⟩ | ⟨-, hgr⟩ <;>
      simp_all [LowShaped, create, leveled, rotatedLeft, rotatedRight, pushedLeft, pushedRight,
        hungRight, hungLeft, pulled, ground, heightOf, holds, shaped_node, Shaped.nil, Shaped.blank,
        ne_of_gt]

theorem low_left_right (hw : w ≠ []) (hx : x ≠ []) (hn : 0 < n) (hy : y ≠ []) (hm : 0 < m)
    (ha : Shaped a) (hb : Shaped b) (hr : Shaped r) (har : a.heightOf = r.heightOf)
    (hbr : b.heightOf = r.heightOf) (hlow : r.heightOf ≤ 0) (hg : b.grows w = true) :
    LowShaped r.heightOf
      (leveled (leveled a y m (b.graft w)).rotatedLeft x n r).rotatedRight := by
  rcases lowest_graft hb (by omega) hg with ⟨rfl, hgr⟩ | ⟨z, q, rfl, hz, hq, hside⟩
  · obtain rfl := hr.height_neg hbr.symm
    obtain rfl := ha.height_neg har
    simp [hgr, LowShaped, create, leveled, rotatedLeft, rotatedRight, pushedLeft, pushedRight,
      hungRight, hungLeft, pulled, heightOf, shaped_node, Shaped.nil, hw, hx, hn, hy, hm]
  · obtain ⟨u, p, rfl, hu⟩ := hr.height_zero hbr.symm
    obtain ⟨v, j, rfl, hv⟩ := ha.height_zero har
    rcases hu with ⟨rfl, rfl⟩ | ⟨hu, hp⟩ <;> rcases hv with ⟨rfl, rfl⟩ | ⟨hv, hj⟩ <;>
      rcases hside with ⟨-, hgr⟩ | ⟨-, hgr⟩ <;>
      simp_all [LowShaped, create, leveled, rotatedLeft, rotatedRight, pushedLeft, pushedRight,
        hungRight, hungLeft, pulled, ground, heightOf, holds, shaped_node, Shaped.nil, Shaped.blank,
        ne_of_gt]

end LowPivot

end NodePtr

end DistributedAvl
