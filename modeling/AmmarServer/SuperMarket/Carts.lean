import AmmarServer.Lib.Run
import AmmarServer.SuperMarket.Seeds

/-! The carts over every history of calls. -/

namespace AmmarServer.SuperMarket
open CString Bytes TextFile PercentCoding Run

variable {cart : Cart} {params : Params}

/-! Items that are changed where they are. -/

theorem Inv.of_map (h : Inv cart) {items : List Item}
    (hids : items.map Item.id = cart.items.map Item.id)
    (hnames : items.map Item.name = cart.items.map Item.name)
    (hqty : ∀ it ∈ items, 1 ≤ it.qty.toNat ∧ it.qty.toNat ≤ MAX_QTY) :
    Inv { cart with items } where
  items_le := by
    have hlength := congrArg List.length hids
    rw [List.length_map, List.length_map] at hlength
    exact hlength.trans_le h.items_le
  qty := hqty
  keys := by
    have hkeys : ∀ items : List Item, items.map (fun it => normGreeklish it.name NORM_BUF_SIZE) =
        (items.map Item.name).map fun name => normGreeklish name NORM_BUF_SIZE := by
      intro items
      rw [List.map_map]
      rfl
    have hold := h.keys
    show (items.map fun it => normGreeklish it.name NORM_BUF_SIZE).Nodup
    rw [hkeys] at hold ⊢
    rw [hnames]
    exact hold
  ids := by
    show (items.map Item.id).Nodup
    rw [hids]
    exact h.ids
  items := by
    intro it hit
    obtain ⟨old, hold, hid⟩ := List.mem_map.mp (hids ▸ List.mem_map_of_mem hit)
    obtain ⟨other, hother, hname⟩ := List.mem_map.mp (hnames ▸ List.mem_map_of_mem hit)
    have hold := h.items old hold
    have hother := h.items other hother
    exact {
      id_ne := hid ▸ hold.id_ne
      id_plain := hid ▸ hold.id_plain
      id_le := hid ▸ hold.id_le
      name_ne := hname ▸ hother.name_ne
      name_nonzero := hname ▸ hother.name_nonzero
      name_le := hname ▸ hother.name_le }
  title_nonzero := h.title_nonzero
  title_le := h.title_le
  title_ne := h.title_ne

theorem map_modify_of_eq {α β : Type*} {f : α → α} {g : α → β} (hsame : ∀ a, g (f a) = g a)
    (l : List α) (i : ℕ) : (l.modify i f).map g = l.map g := by
  apply List.ext_getElem
  · simp
  · intro j _ _
    rw [List.getElem_map, List.getElem_map, List.getElem_modify]
    split
    · exact hsame _
    · rfl

theorem Inv.check (h : Inv cart) (i : ℕ) (f : Bool → Bool) :
    Inv { cart with items := cart.items.modify i fun it => { it with checked := f it.checked } } := by
  have hsame : ∀ {β : Type} (g : Item → β), (∀ it : Item, g { it with checked := f it.checked } = g it) →
      (cart.items.modify i fun it => { it with checked := f it.checked }).map g =
        cart.items.map g := fun g hg => map_modify_of_eq hg cart.items i
  refine h.of_map (hsame Item.id fun _ => rfl) (hsame Item.name fun _ => rfl) fun it hit => ?_
  have hqty := List.mem_map_of_mem (f := Item.qty) hit
  rw [hsame Item.qty fun _ => rfl] at hqty
  obtain ⟨old, hold, hqty⟩ := List.mem_map.mp hqty
  rw [← hqty]
  exact h.qty old hold

/-! `ACTION_QTY`. -/

theorem clampedQty_toNat (params : Params) (it : Item) :
    1 ≤ (clampedQty params it).toNat ∧ (clampedQty params it).toNat ≤ MAX_QTY := by
  unfold clampedQty
  dsimp only
  generalize (if params.hasDelta then _ else _ : ℤ) = wanted
  have hlow : 1 ≤ max 1 (min (MAX_QTY : ℤ) wanted) := le_max_left ..
  have hhigh : max 1 (min (MAX_QTY : ℤ) wanted) ≤ MAX_QTY :=
    max_le (by decide) (min_le_left ..)
  generalize max 1 (min (MAX_QTY : ℤ) wanted) = n at hlow hhigh
  unfold MAX_QTY at *
  have hmod : (UInt32.ofNat n.toNat).toNat = n.toNat := by
    apply UInt32.toNat_ofNat_of_lt'
    rw [UInt32.size]
    omega
  rw [hmod]
  omega

theorem newQty_eq {it : Item} (hqty : it.qty.toNat ≤ MAX_QTY)
    (hsum : params.hasDelta → it.qty.toNat + params.delta.toInt < 2 ^ 31) :
    newQty it params = some (clampedQty params it) := by
  have hint : asInt it.qty = it.qty.toNat := by
    unfold asInt
    rw [if_pos (lt_of_le_of_lt hqty (by decide))]
  have hclamp : ∀ n : ℤ, (if (MAX_QTY : ℤ) < (if n < 1 then 1 else n) then (MAX_QTY : ℤ) else
      if n < 1 then 1 else n) = max 1 (min (MAX_QTY : ℤ) n) := by
    intro n
    unfold MAX_QTY
    split <;> split at * <;> omega
  unfold newQty clampedQty
  simp only [hint, hclamp]
  by_cases hdelta : params.hasDelta = true
  · have hlow := params.delta.le_toInt
    have hadd : addInt it.qty.toNat params.delta.toInt =
        some (it.qty.toNat + params.delta.toInt) := if_pos ⟨by omega, hsum hdelta⟩
    rw [if_pos hdelta, if_pos hdelta, hadd, Option.map_some]
  · rw [if_neg hdelta, if_neg hdelta]
    split <;> rfl

theorem set_eq_map {items : List Item} (hids : (items.map Item.id).Nodup) {i : ℕ} {id : List UInt8}
    (hi : items.findIdx? (fun it => it.id = id) = some i) (f : Item → Item) :
    ∃ it, items[i]? = some it ∧
      items.set i (f it) = items.map fun it => if it.id = id then f it else it := by
  obtain ⟨hlt, hid, -⟩ := List.findIdx?_eq_some_iff_getElem.mp hi
  have hid : items[i].id = id := of_decide_eq_true hid
  refine ⟨items[i], List.getElem?_eq_getElem hlt, ?_⟩
  apply List.ext_getElem
  · simp
  · intro j hj _
    have hj : j < items.length := by simpa using hj
    rw [List.getElem_set, List.getElem_map]
    split
    · rename_i heq
      subst heq
      rw [if_pos hid]
    · rename_i hne
      rw [if_neg]
      intro hcon
      have hsame : items[i] = items[j] := List.inj_on_of_nodup_map hids (List.getElem_mem hlt)
        (List.getElem_mem hj) (hid.trans hcon.symm)
      exact hne ((List.Nodup.of_map Item.id hids).getElem_inj_iff.mp hsame)

/-! The actions. -/

/-- What an action leaves of a cart, its revision apart. -/
structure Done (cart : Cart) (params : Params) (cart' : Cart) : Prop where
  inv : Inv cart'
  rev : cart'.rev = cart.rev
  qty : params.action = .qty → cart' = { cart with
    items := cart.items.map fun it =>
      if it.id = params.itemID.bytes then { it with qty := clampedQty params it } else it }
  unknown : params.action ∈ [Action.qty, .toggle, .del, .imgdel] →
    (∀ it ∈ cart.items, it.id ≠ params.itemID.bytes) → cart' = cart

theorem Done.refl (h : Inv cart) (hqty : params.action ≠ .qty) : Done cart params cart where
  inv := h
  rev := rfl
  qty := fun hcon => absurd hcon hqty
  unknown := fun _ _ => rfl

theorem Done.of_inv {cart' : Cart} (h : Inv cart') (hrev : cart'.rev = cart.rev)
    (haction : params.action ∉ [Action.qty, .toggle, .del, .imgdel]) : Done cart params cart' where
  inv := h
  rev := hrev
  qty := fun hcon => absurd (hcon ▸ List.mem_cons_self ..) haction
  unknown := fun hcon => absurd hcon haction

theorem find_of_some {i : ℕ} (hi : findItemIndex cart params.itemID.bytes = some i) :
    ∃ it ∈ cart.items, it.id = params.itemID.bytes := by
  obtain ⟨hlt, hid, -⟩ := List.findIdx?_eq_some_iff_getElem.mp hi
  exact ⟨cart.items[i], List.getElem_mem hlt, of_decide_eq_true hid⟩

theorem Done.of_found {cart' : Cart} (h : Inv cart') (hrev : cart'.rev = cart.rev)
    (hqty : params.action ≠ .qty) {i : ℕ} (hi : findItemIndex cart params.itemID.bytes = some i) :
    Done cart params cart' where
  inv := h
  rev := hrev
  qty := fun hcon => absurd hcon hqty
  unknown := by
    intro _ hnone
    obtain ⟨it, hit, hid⟩ := find_of_some hi
    exact absurd hid (hnone it hit)

variable {newID : ℕ → ℕ}

theorem trim_subset (s : List UInt8) : trim s ⊆ s := by
  have hright := (List.rdropWhile_prefix isSpace (l := s.dropWhile isSpace)).subset
  exact List.Subset.trans hright (List.dropWhile_suffix isSpace).subset

theorem trimmed_nonzero {size : ℕ} (text : Text size) (n : ℕ) : 0 ∉ (trim text.bytes).take n :=
  fun hcon => text.nonzero (trim_subset _ (List.mem_of_mem_take hcon))

theorem add_done (h : Inv cart) (haction : params.action = .add)
    (hfresh : generateHexID newID 8 ∉ cart.items.map Item.id) :
    ∃ cart', applyAction (generateHexID newID 8) cart params = some cart' ∧
      Done cart params cart' := by
  have hnot : params.action ∉ [Action.qty, .toggle, .del, .imgdel] := by
    rw [haction]
    decide
  unfold applyAction
  rw [haction]
  dsimp only
  split
  · exact ⟨cart, rfl, .of_inv h rfl hnot⟩
  · rename_i hshort
    rw [not_or, Nat.not_lt] at hshort
    split
    · rename_i i _
      exact ⟨_, rfl, .of_inv (h.check i fun _ => false) rfl hnot⟩
    · rename_i hkeys
      split
      · exact ⟨cart, rfl, .of_inv h rfl hnot⟩
      · rename_i hroom
        refine ⟨_, rfl, .of_inv ?_ rfl hnot⟩
        rw [List.findIdx?_eq_none_iff] at hkeys
        exact {
          items_le := Nat.not_le.mp hroom
          qty := by
            intro it hit
            rcases List.mem_cons.mp hit with rfl | hit
            · show 1 ≤ (1 : UInt32).toNat ∧ (1 : UInt32).toNat ≤ MAX_QTY
              decide
            · exact h.qty it hit
          keys := by
            refine List.nodup_cons.mpr ⟨fun hcon => ?_, h.keys⟩
            obtain ⟨it, hit, heq⟩ := List.mem_map.mp hcon
            have hne := of_decide_eq_false (hkeys it hit)
            exact hne heq
          ids := List.nodup_cons.mpr ⟨hfresh, h.ids⟩
          items := by
            intro it hit
            rcases List.mem_cons.mp hit with rfl | hit
            · exact storable_new hshort.1 (trimmed_nonzero _ _) hshort.2
            · exact h.items it hit
          title_nonzero := h.title_nonzero
          title_le := h.title_le
          title_ne := h.title_ne }

theorem qty_done (h : Inv cart) (haction : params.action = .qty)
    (hsum : params.hasDelta → ∀ it ∈ cart.items, it.id = params.itemID.bytes →
      it.qty.toNat + params.delta.toInt < 2 ^ 31) (id : List UInt8) :
    ∃ cart', applyAction id cart params = some cart' ∧ Done cart params cart' := by
  unfold applyAction
  rw [haction]
  dsimp only
  cases hi : findItemIndex cart params.itemID.bytes with
  | none =>
    have hnone : ∀ it ∈ cart.items, it.id ≠ params.itemID.bytes :=
      fun it hit => of_decide_eq_false (List.findIdx?_eq_none_iff.mp hi it hit)
    refine ⟨cart, rfl, h, rfl, fun _ => ?_, fun _ _ => rfl⟩
    have hsame : cart.items.map (fun it =>
        if it.id = params.itemID.bytes then { it with qty := clampedQty params it } else it) =
        cart.items :=
      (List.map_congr_left fun it hit => if_neg (hnone it hit)).trans (List.map_id _)
    rw [hsame]
  | some i =>
    obtain ⟨it, hget, hset⟩ := set_eq_map h.ids hi fun it => { it with qty := clampedQty params it }
    have hit := List.mem_of_getElem? hget
    obtain ⟨hlt, hid, -⟩ := List.findIdx?_eq_some_iff_getElem.mp hi
    have heq : cart.items[i] = it := Option.some.inj ((List.getElem?_eq_getElem hlt).symm.trans hget)
    have hid : it.id = params.itemID.bytes := heq ▸ of_decide_eq_true hid
    have hnew := newQty_eq (h.qty it hit).2 fun hdelta => hsum hdelta it hit hid
    dsimp only
    rw [hget, Option.bind_some, hnew, Option.map_some, hset]
    refine ⟨_, rfl, ?_, rfl, fun _ => rfl, fun _ hnone => absurd hid (hnone it hit)⟩
    have hkept : ∀ {β : Type} (g : Item → β), (∀ it : Item, g { it with qty := clampedQty params it } =
        g it) → (cart.items.map fun it => if it.id = params.itemID.bytes then
          { it with qty := clampedQty params it } else it).map g = cart.items.map g := by
      intro β g hg
      rw [List.map_map]
      refine List.map_congr_left fun it _ => ?_
      show g (if it.id = params.itemID.bytes then _ else _) = _
      split
      · exact hg it
      · rfl
    refine h.of_map (hkept Item.id fun _ => rfl) (hkept Item.name fun _ => rfl) fun it hit => ?_
    obtain ⟨old, hold, rfl⟩ := List.mem_map.mp hit
    split
    · exact clampedQty_toNat params old
    · exact h.qty old hold

theorem toggle_done (h : Inv cart) (haction : params.action = .toggle) (id : List UInt8) :
    ∃ cart', applyAction id cart params = some cart' ∧ Done cart params cart' := by
  have hqty : params.action ≠ .qty := by simp [haction]
  unfold applyAction
  rw [haction]
  dsimp only
  cases hi : findItemIndex cart params.itemID.bytes with
  | none => exact ⟨cart, rfl, .refl h hqty⟩
  | some i => exact ⟨_, rfl, .of_found (h.check i not) rfl hqty hi⟩

theorem del_done (h : Inv cart) (haction : params.action = .del) (id : List UInt8) :
    ∃ cart', applyAction id cart params = some cart' ∧ Done cart params cart' := by
  have hqty : params.action ≠ .qty := by simp [haction]
  unfold applyAction
  rw [haction]
  dsimp only
  cases hi : findItemIndex cart params.itemID.bytes with
  | none => exact ⟨cart, rfl, .refl h hqty⟩
  | some i =>
    have hsub : (cart.items.eraseIdx i).Sublist cart.items := List.eraseIdx_sublist ..
    refine ⟨_, rfl, .of_found ?_ rfl hqty hi⟩
    exact {
      items_le := hsub.length_le.trans h.items_le
      qty := fun it hit => h.qty it (hsub.subset hit)
      keys := (hsub.map _).nodup h.keys
      ids := (hsub.map _).nodup h.ids
      items := fun it hit => h.items it (hsub.subset hit)
      title_nonzero := h.title_nonzero
      title_le := h.title_le
      title_ne := h.title_ne }

theorem name_done (h : Inv cart) (haction : params.action = .name)
    (htitle : trim params.text.bytes ≠ ascii "-") (id : List UInt8) :
    ∃ cart', applyAction id cart params = some cart' ∧ Done cart params cart' := by
  have hnot : params.action ∉ [Action.qty, .toggle, .del, .imgdel] := by
    rw [haction]
    decide
  unfold applyAction
  rw [haction]
  dsimp only
  split
  · rename_i hshort
    refine ⟨_, rfl, .of_inv ?_ rfl hnot⟩
    refine { h with title_nonzero := trimmed_nonzero _ _, title_le := ?_, title_ne := ?_ }
    · rcases hshort with hnil | hle
      · show List.length _ ≤ _
        rw [hnil]
        exact Nat.zero_le _
      · exact hle
    · -- a title that was cut is longer than that
      show (trim params.text.bytes).take (TITLE_BUF_SIZE - 1) ≠ ascii "-"
      intro hcon
      rcases Nat.lt_or_ge (TITLE_BUF_SIZE - 1) (trim params.text.bytes).length with hlt | hle
      · have hlength := congrArg List.length hcon
        rw [List.length_take, Nat.min_eq_left (Nat.le_of_lt hlt)] at hlength
        exact absurd hlength (by decide)
      · rw [List.take_of_length_le hle] at hcon
        exact htitle hcon
  · exact ⟨cart, rfl, .of_inv h rfl hnot⟩

theorem action_done (h : Inv cart) (hfine : Fine cart params)
    (hfresh : params.action = .add → generateHexID newID 8 ∉ cart.items.map Item.id) :
    ∃ cart', applyAction (generateHexID newID 8) cart params = some cart' ∧
      Done cart params cart' := by
  cases haction : params.action with
  | add => exact add_done h haction (hfresh haction)
  | qty => exact qty_done h haction (hfine.qty haction) _
  | toggle => exact toggle_done h haction _
  | del => exact del_done h haction _
  | name => exact name_done h haction (hfine.title haction) _
  | imgdel =>
    unfold applyAction
    rw [haction]
    exact ⟨cart, rfl, .refl h (by simp [haction])⟩
  | noop =>
    unfold applyAction
    rw [haction]
    exact ⟨cart, rfl, .refl h (by simp [haction])⟩

/-! The calls. -/

theorem add_one_toNat {n : UInt32} (h : n ≠ 2 ^ 32 - 1) : (n + 1).toNat = n.toNat + 1 := by
  have hne : n.toNat ≠ 2 ^ 32 - 1 := fun hcon => h (UInt32.toNat_inj.mp hcon)
  have hlt := n.toNat_lt
  rw [UInt32.toNat_add]
  show (n.toNat + 1) % 2 ^ 32 = _
  rw [Nat.mod_eq_of_lt (by omega)]

theorem Inv.setRev (h : Inv cart) (rev : UInt32) : Inv { cart with rev } := { h with }

theorem mutate_acts (h : Inv cart) {call : Call} (hdistinct : Distinct cart call)
    (hfine : ∀ params, call.params = some params → Fine cart params) :
    ∃ cart', mutate cart call = some cart' ∧ Inv cart' ∧ Acts cart call cart' := by
  unfold mutate
  cases hparams : call.params with
  | none =>
    refine ⟨cart, rfl, h, fun _ => rfl, fun hcon => absurd hparams hcon, ?_, ?_⟩
    · intro params hcon
      rw [hparams] at hcon
      cases hcon
    · intro params hcon
      rw [hparams] at hcon
      cases hcon
  | some params =>
    have hfine := hfine params hparams
    obtain ⟨cart', haction, hinv, hrev, hqty, hunknown⟩ :=
      action_done h hfine (hdistinct.newID params hparams)
    dsimp only
    rw [haction, Option.map_some]
    refine ⟨_, rfl, hinv.setRev _, fun hcon => ?_, fun _ => ?_, ?_, ?_⟩
    · rw [hparams] at hcon
      cases hcon
    · show (cart'.rev + 1).toNat = _
      rw [hrev, add_one_toNat hfine.rev]
    · intro p hp hact
      obtain rfl : params = p := Option.some.inj (hparams.symm.trans hp)
      rw [hqty hact]
    · intro p hp hact hnone
      obtain rfl : params = p := Option.some.inj (hparams.symm.trans hp)
      rw [hunknown hact hnone]

/-- What the file holds: nothing before the first call, then the last cart. -/
inductive Holds : Shop → Prop
  | fresh : Holds { file := [], outCart := none }
  | stored {cart : Cart} (inv : Inv cart) :
      Holds { file := serializeCartStream cart, outCart := some cart }

theorem openCart_nil (seedIDs : ℕ → ℕ → ℕ) : openCart [] seedIDs = seedCart seedIDs := rfl

theorem Holds.openCart {s : Shop} (h : Holds s) {seedIDs : ℕ → ℕ → ℕ}
    (hids : ((openCart s.file seedIDs).items.map Item.id).Nodup) :
    Inv (openCart s.file seedIDs) := by
  cases h with
  | fresh => exact inv_seedCart hids
  | stored inv =>
    unfold SuperMarket.openCart
    rw [parse_serialize inv.toStorableCart]
    exact inv

theorem Holds.kept {s : Shop} (h : Holds s) : Stored s := by
  cases h with
  | fresh => exact ⟨fun _ hcon => (by cases hcon), fun _ hcon => (by cases hcon)⟩
  | stored inv =>
    refine ⟨fun cart hcart => ?_, fun cart hcart => ?_⟩
    · obtain rfl := Option.some.inj hcart
      exact inv.toKept
    · obtain rfl := Option.some.inj hcart
      exact parse_serialize inv.toStorableCart

theorem withCart_spec {s : Shop} (h : Holds s) {call : Call} (hmeets : Meets (some s) call) :
    ∃ cart, withCart s call = some { file := serializeCartStream cart, outCart := some cart } ∧
      Inv cart ∧ Acts (openCart s.file call.seedIDs) call cart := by
  obtain ⟨hdraws, hfine⟩ := hmeets
  have hinv := h.openCart (hdraws s rfl).ids
  obtain ⟨cart, hmutate, hcart, hacts⟩ := mutate_acts hinv (hdraws s rfl) (hfine s rfl)
  refine ⟨cart, ?_, hcart, hacts⟩
  unfold withCart
  rw [hmutate, Option.map_some]

/-- Every call but those that name a list `-`, add beyond an `int` or have no revision left. -/
theorem carts_served {shop : Option Shop} (h : Reaches step Meets start shop) :
    Served shop Meets := by
  have hholds : ∃ s, shop = some s ∧ Holds s := by
    induction h with
    | start => exact ⟨_, rfl, .fresh⟩
    | step call _ hmeets ih =>
      obtain ⟨s, rfl, hs⟩ := ih
      obtain ⟨cart, hstep, hinv, -⟩ := withCart_spec hs hmeets
      exact ⟨_, hstep, .stored hinv⟩
  obtain ⟨s, rfl, hs⟩ := hholds
  refine ⟨⟨s, rfl, hs.kept⟩, fun s' hs' call hmeets => ?_⟩
  obtain rfl := Option.some.inj hs'
  obtain ⟨cart, hstep, -, hacts⟩ := withCart_spec hs hmeets
  exact ⟨_, cart, hstep, rfl, hacts⟩

/-! One list. -/

def noText (size : ℕ) (hsize : 0 < size) : Text size := ⟨[], hsize, List.not_mem_nil⟩

theorem dash_fits : (ascii "-").length < NAME_BUF_SIZE := by decide

theorem dash_nonzero : 0 ∉ ascii "-" := by decide

theorem idSize_pos : 0 < ID_BUF_SIZE := by decide

/-- The call that names the list `-`. -/
def dash : Params where
  action := .name
  itemID := noText ID_BUF_SIZE idSize_pos
  text := ⟨ascii "-", dash_fits, dash_nonzero⟩
  hasDelta := false
  delta := 0
  hasValue := false
  value := 0

/-- Ids from the digits of a number. -/
def digitIDs (i j : ℕ) : ℕ := i / 16 ^ j

def call (params : Option Params) : Call := { params, seedIDs := digitIDs, newID := fun _ => 0 }

theorem digitIDs_nodup : ((seedCart digitIDs).items.map Item.id).Nodup := by decide

theorem draws_call {params : Option Params} (hadd : ∀ p, params = some p → p.action ≠ .add) :
    Draws start (call params) := by
  intro s hs
  obtain rfl := Option.some.inj hs
  exact ⟨digitIDs_nodup, fun p hp hact => absurd hact (hadd p hp)⟩

theorem carts_served_read : Served (step start (call none)) Meets := by
  refine carts_served (.step (call none) .start ⟨draws_call fun _ hp => ?_, fun _ _ _ hp => ?_⟩)
  · cases hp
  · cases hp

theorem titleLine_dash (cart : Cart) :
    titleLine { cart with title := ascii "-" } = titleLine { cart with title := [] } := by
  have hne : ascii "-" ≠ [] := by decide
  unfold titleLine
  rw [if_pos hne, if_neg (not_not.mpr rfl)]
  have hcode : encode (TITLE_BUF_SIZE * 3) (ascii "-") = ascii "-" := by decide
  exact congrArg (ascii "NAME " ++ ·) hcode

theorem applyAction_name (haction : params.action = .name) (cart : Cart) (id : List UInt8) :
    applyAction id cart params =
      if (trim params.text.bytes).take (TITLE_BUF_SIZE - 1) = [] ∨
          ((trim params.text.bytes).take (TITLE_BUF_SIZE - 1)).length ≤ MAX_TITLE_LEN * 4 then
        some { cart with title := (trim params.text.bytes).take (TITLE_BUF_SIZE - 1) }
      else some cart := by
  unfold applyAction
  rw [haction]

/-- A list that is named `-` has no name when it is read. -/
theorem dash_notServed : ¬∀ shop, Reaches step Draws start shop → Served shop Draws := by
  intro hall
  let cart : Cart := { seedCart digitIDs with rev := (seedCart digitIDs).rev + 1 }
  have htrim : (trim (ascii "-")).take (TITLE_BUF_SIZE - 1) = ascii "-" := by decide
  have haction : ∀ id, applyAction id (seedCart digitIDs) dash =
      some { seedCart digitIDs with title := ascii "-" } := by
    intro id
    rw [applyAction_name rfl, show dash.text.bytes = ascii "-" from rfl, htrim,
      if_pos (Or.inr (by decide))]
  have hmutate : mutate (openCart [] digitIDs) (call (some dash)) =
      some { cart with title := ascii "-" } := by
    have hparams : (call (some dash)).params = some dash := rfl
    unfold mutate
    rw [openCart_nil, hparams]
    dsimp only
    rw [haction]
    rfl
  have hstep : step start (call (some dash)) =
      some { file := serializeCartStream { cart with title := ascii "-" }
             outCart := some { cart with title := ascii "-" } } := by
    unfold step start withCart
    rw [Option.bind_some, show (call (some dash)).seedIDs = digitIDs from rfl, hmutate]
    rfl
  have hserved := hall _ (.step (call (some dash)) .start (draws_call fun p hp => by
    obtain rfl := Option.some.inj hp
    decide))
  obtain ⟨⟨s, hs, hstored⟩, -⟩ := hserved
  rw [hstep] at hs
  obtain rfl := Option.some.inj hs
  have hread := hstored.restored _ rfl
  -- the file is that of the list without a name
  have hfile : serializeCartStream { cart with title := ascii "-" } =
      serializeCartStream { cart with title := [] } := by
    unfold serializeCartStream cartLines
    rw [titleLine_dash]
    rfl
  have hinv := (inv_seedCart digitIDs_nodup).setRev ((seedCart digitIDs).rev + 1)
  rw [hfile, show ({ cart with title := [] } : Cart) = cart from rfl,
    parse_serialize hinv.toStorableCart] at hread
  have htitle : ([] : List UInt8) = ascii "-" := congrArg (fun read => read.1.title) hread
  exact absurd htitle (by decide)

end AmmarServer.SuperMarket
