/-
New texts in the sinks of a page.

A pass writes new texts over old ones, and only where there is a place for them: `Category.overwrite` does it for one
category, `Tree.overwrite` for a tree and its categories, `Page.overwrite` for the first tree of a name. Nothing else
changes, so what depends on the rest of a category is not touched.

- `Page.overwrite_overwrite_self`: what is written last stays, whatever was written before it;
- `Page.overwriteAll_self`: to write the same texts in the same order a second time changes nothing.
-/
import LedgerTotals.Proofs.Page.Frame

namespace LedgerTotals

/-! ## One place -/

/-- new texts, if there are any, in a place, if it is there -/
def Sinks.overwrite (new old : Option Sinks) : Option Sinks := old.map fun s => new.getD s

@[simp] theorem Sinks.overwrite_none (old : Option Sinks) : overwrite none old = old := by
  cases old <;> rfl

@[simp] theorem Sinks.isSome_overwrite (new old : Option Sinks) : (overwrite new old).isSome = old.isSome := by
  simp [overwrite]

/-- of two texts written one after the other the second is seen, if there is one -/
theorem Sinks.overwrite_overwrite (new other old : Option Sinks) :
    overwrite new (overwrite other old) = overwrite (new.or other) old := by
  cases old <;> cases new <;> rfl

/-- what is written last stays -/
theorem Sinks.overwrite_overwrite_self (new other old : Option Sinks) :
    overwrite new (overwrite other (overwrite new old)) = overwrite new (overwrite other old) := by
  cases old <;> cases new <;> cases other <;> rfl

/-! ## Categories -/

namespace Category

def overwrite (new : Option Sinks) (c : Category) : Category := { c with totals := Sinks.overwrite new c.totals }

@[simp] theorem label_overwrite (new : Option Sinks) (c : Category) : (c.overwrite new).label = c.label := rfl

@[simp] theorem rows_overwrite (new : Option Sinks) (c : Category) : (c.overwrite new).rows = c.rows := rfl

@[simp] theorem amountTexts_overwrite (new : Option Sinks) (c : Category) :
    (c.overwrite new).amountTexts = c.amountTexts := rfl

@[simp] theorem isSome_totals_overwrite (new : Option Sinks) (c : Category) :
    (c.overwrite new).totals.isSome = c.totals.isSome := Sinks.isSome_overwrite new c.totals

@[simp] theorem frame_overwrite (new : Option Sinks) (c : Category) : (c.overwrite new).frame = c.frame := by
  simp [frame, overwrite]

@[simp] theorem overwrite_none (c : Category) : c.overwrite none = c := by
  simp [overwrite]

theorem overwrite_overwrite (new other : Option Sinks) (c : Category) :
    (c.overwrite other).overwrite new = c.overwrite (new.or other) := by
  simp only [overwrite, Sinks.overwrite_overwrite]

theorem overwrite_overwrite_self (new other : Option Sinks) (c : Category) :
    ((c.overwrite new).overwrite other).overwrite new = (c.overwrite other).overwrite new := by
  simp only [overwrite, Sinks.overwrite_overwrite_self]

/-- the categories with new texts, one after the other; those beyond the last text are left as they are -/
def overwriteAll : List (Option Sinks) → List Category → List Category
  | new :: news, c :: cs => c.overwrite new :: overwriteAll news cs
  | _, cs => cs

@[simp] theorem overwriteAll_nil (cs : List Category) : overwriteAll [] cs = cs := by
  cases cs <;> rfl

@[simp] theorem overwriteAll_nil_right (news : List (Option Sinks)) : overwriteAll news [] = [] := by
  cases news <;> rfl

theorem getElem?_overwriteAll (news : List (Option Sinks)) (cs : List Category) (i : ℕ) :
    (overwriteAll news cs)[i]? = cs[i]?.map fun c => c.overwrite news[i]?.join := by
  induction news generalizing cs i with
  | nil => simp [Option.map_id']
  | cons new news ih =>
    cases cs with
    | nil => rfl
    | cons c cs =>
      cases i with
      | zero => rfl
      | succ i => simpa [overwriteAll] using ih cs i

theorem overwriteAll_append {news : List (Option Sinks)} {cs : List Category} (h : news.length = cs.length)
    (news' : List (Option Sinks)) (cs' : List Category) :
    overwriteAll (news ++ news') (cs ++ cs') = overwriteAll news cs ++ overwriteAll news' cs' := by
  induction news generalizing cs with
  | nil =>
    obtain rfl : cs = [] := List.length_eq_zero_iff.1 h.symm
    simp
  | cons new news ih =>
    cases cs with
    | nil => simp at h
    | cons c cs => simp [overwriteAll, ih (Nat.succ_inj.1 h)]

/-- what depends on a category apart from its texts is the same after writing -/
theorem map_overwriteAll {β : Type} {f : Category → β} (hf : ∀ new c, f (c.overwrite new) = f c)
    (news : List (Option Sinks)) (cs : List Category) : (overwriteAll news cs).map f = cs.map f := by
  induction news generalizing cs with
  | nil => simp
  | cons new news ih =>
    cases cs with
    | nil => rfl
    | cons c cs => simp [overwriteAll, hf, ih]

@[simp] theorem length_overwriteAll (news : List (Option Sinks)) (cs : List Category) :
    (overwriteAll news cs).length = cs.length := by
  have hlabels := map_overwriteAll label_overwrite news cs
  simpa using congrArg List.length hlabels

theorem zipWith_overwriteAll {α β : Type} {f : Category → α → β} (hf : ∀ new c a, f (c.overwrite new) a = f c a)
    (news : List (Option Sinks)) (cs : List Category) (as : List α) :
    List.zipWith f (overwriteAll news cs) as = List.zipWith f cs as := by
  have hmap : ∀ l : List Category, List.zipWith f l as = List.zipWith (fun g a => g a) (l.map f) as :=
    fun l => by rw [List.zipWith_map_left]
  rw [hmap, map_overwriteAll fun new c => funext (hf new c), ← hmap]

theorem overwriteAll_eq_zipWith {news : List (Option Sinks)} {cs : List Category} (h : news.length = cs.length) :
    overwriteAll news cs = List.zipWith (fun c new => c.overwrite new) cs news := by
  induction news generalizing cs with
  | nil =>
    obtain rfl : cs = [] := List.length_eq_zero_iff.1 h.symm
    rfl
  | cons new news ih =>
    cases cs with
    | nil => simp at h
    | cons c cs => simp [overwriteAll, ih (Nat.succ_inj.1 h)]

/-- to change every category by its position, and to write texts that do not matter to the change, commute -/
theorem mapIdx_overwriteAll {f : ℕ → Category → Category} (hf : ∀ i new c, f i (c.overwrite new) = (f i c).overwrite new)
    (news : List (Option Sinks)) (cs : List Category) :
    (overwriteAll news cs).mapIdx f = overwriteAll news (cs.mapIdx f) := by
  induction cs generalizing f news with
  | nil => simp
  | cons c cs ih =>
    cases news with
    | nil => simp
    | cons new news =>
      have hrest := ih (f := fun i => f (i + 1)) (fun i => hf (i + 1)) news
      simp [overwriteAll, List.mapIdx_cons, hf, hrest]

theorem overwriteAll_overwriteAll_self (news others : List (Option Sinks)) (cs : List Category) :
    overwriteAll news (overwriteAll others (overwriteAll news cs)) = overwriteAll news (overwriteAll others cs) := by
  induction cs generalizing news others with
  | nil => simp
  | cons c cs ih =>
    cases news with
    | nil => simp
    | cons new news =>
      cases others with
      | nil =>
        -- to write twice is to write with nothing in between
        have hcs : overwriteAll news (overwriteAll news cs) = overwriteAll news cs := by simpa using ih news []
        have hc : (c.overwrite new).overwrite new = c.overwrite new := by
          simpa using c.overwrite_overwrite_self new none
        simp [overwriteAll, hc, hcs]
      | cons other others => simp [overwriteAll, overwrite_overwrite_self, ih]

end Category

/-! ## Trees -/

/-- new texts for the sinks of a tree and for those of its categories -/
structure TreeTexts where
  total : Option Sinks
  categories : List (Option Sinks)

namespace Tree

/-- the tree with new texts in its sinks and in those of its categories -/
def overwrite (new : TreeTexts) (t : Tree) : Tree :=
  { t with
    total := Sinks.overwrite new.total t.total
    categories := Category.overwriteAll new.categories t.categories }

@[simp] theorem name_overwrite (new : TreeTexts) (t : Tree) : (t.overwrite new).name = t.name := rfl

@[simp] theorem isSome_total_overwrite (new : TreeTexts) (t : Tree) :
    (t.overwrite new).total.isSome = t.total.isSome := Sinks.isSome_overwrite new.total t.total

theorem frame_overwrite (new : TreeTexts) (t : Tree) : (t.overwrite new).frame = t.frame := by
  have hcategories := Category.map_overwriteAll Category.frame_overwrite new.categories t.categories
  simp [frame, overwrite, hcategories]

theorem overwrite_overwrite_self (new other : TreeTexts) (t : Tree) :
    ((t.overwrite new).overwrite other).overwrite new = (t.overwrite other).overwrite new := by
  simp only [overwrite, Sinks.overwrite_overwrite_self, Category.overwriteAll_overwriteAll_self]

theorem overwrite_overwrite (new : TreeTexts) (t : Tree) : (t.overwrite new).overwrite new = t.overwrite new := by
  simpa [overwrite] using t.overwrite_overwrite_self new ⟨none, []⟩

end Tree

/-! ## Pages -/

namespace Page

theorem updateTree_comm {f g : Tree → Tree} (hf : ∀ t, (f t).name = t.name) (hg : ∀ t, (g t).name = t.name) (p : Page)
    {name other : String} (hne : other ≠ name) :
    (p.updateTree name f).updateTree other g = (p.updateTree other g).updateTree name f := by
  have htrees : updateFirst other g (updateFirst name f p.trees) = updateFirst name f (updateFirst other g p.trees) := by
    induction p.trees with
    | nil => rfl
    | cons t r ih =>
      by_cases hname : t.name = name
      · simp [updateFirst, hf, hname, Ne.symm hne]
      · by_cases hother : t.name = other <;> simp [updateFirst, hg, hname, hother, hne, ih]
  simp only [updateTree, htrees]

/-- the page with new texts in the sinks of the first tree of the name -/
def overwrite (p : Page) (new : String × TreeTexts) : Page := p.updateTree new.1 (Tree.overwrite new.2)

/-- what is written last stays -/
theorem overwrite_overwrite_self (new other : String × TreeTexts) (p : Page) :
    ((p.overwrite new).overwrite other).overwrite new = (p.overwrite other).overwrite new := by
  have hname : ∀ (x : TreeTexts) (t : Tree), (t.overwrite x).name = t.name := fun _ _ => rfl
  obtain ⟨name, new⟩ := new
  obtain ⟨name', other⟩ := other
  simp only [overwrite]
  by_cases h : name' = name
  · rw [h, updateTree_updateTree (hname new), updateTree_updateTree (hname other)]
    refine (updateTree_updateTree (f := fun t => (t.overwrite new).overwrite other) (fun _ => rfl) p name).trans ?_
    exact updateTree_congr fun t _ => t.overwrite_overwrite_self new other
  · rw [updateTree_comm (hname new) (hname other) p h, updateTree_updateTree (hname new)]
    exact updateTree_congr fun t _ => t.overwrite_overwrite new

theorem findTree?_overwrite_self (p : Page) (name : String) (new : TreeTexts) :
    (p.overwrite (name, new)).findTree? name = (p.findTree? name).map (Tree.overwrite new) :=
  findTree?_updateTree_self (Tree.name_overwrite new) p name

theorem findTree?_overwrite_ne (p : Page) {name other : String} (hne : other ≠ name) (new : TreeTexts) :
    (p.overwrite (name, new)).findTree? other = p.findTree? other :=
  findTree?_updateTree_ne (Tree.name_overwrite new) p hne

/-- new texts for one tree after the other -/
def overwriteAll (p : Page) (news : List (String × TreeTexts)) : Page := news.foldl overwrite p

theorem frame_overwriteAll (p : Page) (news : List (String × TreeTexts)) : (p.overwriteAll news).frame = p.frame := by
  induction news generalizing p with
  | nil => rfl
  | cons new news ih => exact (ih _).trans (frame_updateTree (Tree.frame_overwrite new.2) p new.1)

theorem grandTotal_overwriteAll (p : Page) (news : List (String × TreeTexts)) :
    (p.overwriteAll news).grandTotal = p.grandTotal := by
  induction news generalizing p with
  | nil => rfl
  | cons new news ih => exact ih _

/-- what depends on a tree apart from its texts is the same after writing -/
theorem map_findTree?_overwriteAll {β : Type} {f : Tree → β} (hf : ∀ new t, f (t.overwrite new) = f t) (p : Page)
    (news : List (String × TreeTexts)) (name : String) :
    ((p.overwriteAll news).findTree? name).map f = (p.findTree? name).map f := by
  induction news generalizing p with
  | nil => rfl
  | cons new news ih =>
    obtain ⟨other, new⟩ := new
    refine (ih _).trans ?_
    by_cases h : name = other
    · rw [h, findTree?_overwrite_self, Option.map_map]
      exact congrArg (fun g => (p.findTree? other).map g) (funext (hf new))
    · rw [findTree?_overwrite_ne p h]

theorem overwriteAll_append (p : Page) (news news' : List (String × TreeTexts)) :
    p.overwriteAll (news ++ news') = (p.overwriteAll news).overwriteAll news' := List.foldl_append

/-- other texts in between do not keep a page from getting the texts that are written last -/
theorem overwrite_overwriteAll_self (p : Page) (new : String × TreeTexts) (others : List (String × TreeTexts)) :
    ((p.overwrite new).overwriteAll others).overwrite new = (p.overwriteAll others).overwrite new := by
  -- two pages that come out the same after `new` still do so after any one step
  have hkeep : ∀ (q r : Page) (other : String × TreeTexts), q.overwrite new = r.overwrite new →
      (q.overwrite other).overwrite new = (r.overwrite other).overwrite new := by
    intro q r other h
    rw [← overwrite_overwrite_self new other q, h, overwrite_overwrite_self]
  have hrun : ∀ q r : Page, q.overwrite new = r.overwrite new →
      (q.overwriteAll others).overwrite new = (r.overwriteAll others).overwrite new := by
    induction others with
    | nil => exact fun _ _ h => h
    | cons other others ih => exact fun q r h => ih _ _ (hkeep q r other h)
  refine hrun _ _ ?_
  rw [overwrite, overwrite, updateTree_updateTree (Tree.name_overwrite new.2)]
  exact updateTree_congr fun t _ => t.overwrite_overwrite new.2

/-- **To write everything a second time changes nothing**, in whatever order, and however often one tree is written -/
theorem overwriteAll_self (p : Page) (news : List (String × TreeTexts)) :
    (p.overwriteAll news).overwriteAll news = p.overwriteAll news := by
  -- for any texts in between; without any it is the statement
  have hbetween : ∀ others : List (String × TreeTexts),
      ((p.overwriteAll news).overwriteAll others).overwriteAll news = (p.overwriteAll others).overwriteAll news := by
    induction news with
    | nil => exact fun _ => rfl
    | cons new news ih =>
      intro others
      have hhead := p.overwrite_overwriteAll_self new (news ++ others)
      have htail := ih (others ++ [new])
      simp only [overwriteAll_append] at hhead htail
      calc ((p.overwriteAll (new :: news)).overwriteAll others).overwriteAll (new :: news)
          = ((((p.overwrite new).overwriteAll news).overwriteAll others).overwrite new).overwriteAll news := rfl
        _ = (((p.overwriteAll news).overwriteAll others).overwrite new).overwriteAll news := by rw [hhead]
        _ = (p.overwriteAll others).overwriteAll (new :: news) := htail
  exact hbetween []

end Page

end LedgerTotals
