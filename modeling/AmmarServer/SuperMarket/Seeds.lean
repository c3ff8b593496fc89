import AmmarServer.SuperMarket.CartFile

/-! The carts that are kept, and the seeds as one of them. -/

namespace AmmarServer.SuperMarket
open CString Bytes TextFile PercentCoding

/-- A cart as every call leaves it. -/
structure Inv (cart : Cart) : Prop extends Kept cart, StorableCart cart

theorem hexAlphabet_plain (n : ℕ) :
    isSpace (hexAlphabet.getD (n % 16) 0) = false ∧ hexAlphabet.getD (n % 16) 0 ≠ 0 := by
  have hlt : n % 16 < 16 := Nat.mod_lt n (by decide)
  generalize n % 16 = k at hlt
  revert k
  decide +kernel

theorem storable_new {rand : ℕ → ℕ} {name : List UInt8} {qty : UInt32} {checked : Bool}
    (hne : name ≠ []) (hzero : 0 ∉ name) (hle : name.length ≤ MAX_NAME_LEN * 4) :
    Storable { id := generateHexID rand 8, name, qty, checked } where
  id_ne := by simp [generateHexID]
  id_plain := by
    intro c hc
    obtain ⟨i, -, rfl⟩ := List.mem_map.mp hc
    exact hexAlphabet_plain (rand i)
  id_le := by simp [generateHexID]
  name_ne := hne
  name_nonzero := hzero
  name_le := hle

theorem seedNames_spec : ∀ name ∈ SEED_STAPLES, name ≠ [] ∧ 0 ∉ name ∧
    name.length ≤ MAX_NAME_LEN * 4 := by decide +kernel

/-- The keys of the seeds. -/
def seedKeys : List (List UInt8) :=
  ["psomi", "gala", "aiga", "feta", "giaurti", "vutiro", "tiri tost", "zampon", "kotopulo",
   "kimas", "rizi", "makaronia", "fakes", "fasolia", "aleiri", "zaxari", "alati", "piperi",
   "eleolado", "ksidi", "ntomates", "patates", "kremmidia", "skordo", "lemonia", "mpananes",
   "mila", "portokalia", "karota", "salata", "kafes", "tse", "ximos", "nero", "dimitriaka",
   "meli", "marmelada", "sokolata", "mpiskota", "katepsigmena laxanika", "xarti igias",
   "xarti kuzinas", "xartomantila", "odontokrema", "sampuan", "sapuni",
   "aporripantiko plintiriu", "igro piaton", "xlorini", "sakules skupidion", "aluminoxarto",
   "ladokolla"].map ascii

theorem map_take_drop {α β : Type} {f : α → β} {n k : ℕ} {l : List α} {m : List β}
    (hhere : ((l.drop k).take n).map f = (m.drop k).take n)
    (hrest : (l.drop (k + n)).map f = m.drop (k + n)) : (l.drop k).map f = m.drop k := by
  rw [← List.take_append_drop n (l.drop k), ← List.take_append_drop n (m.drop k), List.map_append,
    hhere, List.drop_drop, List.drop_drop, hrest]

theorem seedKeys_eq :
    (SEED_STAPLES.map fun name => normGreeklish name NORM_BUF_SIZE) = seedKeys := by
  -- A quarter of the names at a time.
  have hfirst : ((SEED_STAPLES.drop 0).take 13).map (fun name => normGreeklish name NORM_BUF_SIZE) =
      (seedKeys.drop 0).take 13 := by decide +kernel
  have hsecond : ((SEED_STAPLES.drop 13).take 13).map
      (fun name => normGreeklish name NORM_BUF_SIZE) = (seedKeys.drop 13).take 13 := by
    decide +kernel
  have hthird : ((SEED_STAPLES.drop 26).take 13).map
      (fun name => normGreeklish name NORM_BUF_SIZE) = (seedKeys.drop 26).take 13 := by
    decide +kernel
  have hlast : (SEED_STAPLES.drop 39).map (fun name => normGreeklish name NORM_BUF_SIZE) =
      seedKeys.drop 39 := by
    decide +kernel
  exact map_take_drop hfirst (map_take_drop hsecond (map_take_drop hthird hlast))

theorem seedKeys_nodup :
    (SEED_STAPLES.map fun name => normGreeklish name NORM_BUF_SIZE).Nodup := by
  rw [seedKeys_eq]
  decide +kernel

theorem seedCart_items (ids : ℕ → ℕ → ℕ) : (seedCart ids).items =
    SEED_STAPLES.mapIdx fun i name =>
      { id := generateHexID (ids i) 8, name, qty := 1, checked := true } := by
  have hlength : SEED_STAPLES.length ≤ MAX_ITEMS := by decide +kernel
  have hnames := seedNames_spec
  unfold seedCart
  rw [List.take_of_length_le hlength]
  generalize SEED_STAPLES = names at hnames
  apply List.ext_getElem
  · rw [List.length_mapIdx, List.length_mapIdx]
  · intro i hi _
    rw [List.length_mapIdx] at hi
    have hle : names[i].length ≤ NAME_BUF_SIZE - 1 :=
      (hnames _ (List.getElem_mem hi)).2.2.trans (by decide)
    rw [List.getElem_mapIdx, List.getElem_mapIdx, List.take_of_length_le hle]

theorem inv_seedCart {ids : ℕ → ℕ → ℕ} (hids : ((seedCart ids).items.map Item.id).Nodup) :
    Inv (seedCart ids) where
  items_le := by
    rw [seedCart_items, List.length_mapIdx]
    decide +kernel
  qty := by
    intro it hit
    rw [seedCart_items] at hit
    obtain ⟨i, hi, rfl⟩ := List.mem_mapIdx.mp hit
    show 1 ≤ (1 : UInt32).toNat ∧ (1 : UInt32).toNat ≤ MAX_QTY
    decide
  keys := by
    have hkeys : (seedCart ids).items.map (fun it => normGreeklish it.name NORM_BUF_SIZE) =
        SEED_STAPLES.map fun name => normGreeklish name NORM_BUF_SIZE := by
      rw [seedCart_items]
      apply List.ext_getElem <;> simp
    rw [hkeys]
    exact seedKeys_nodup
  ids := hids
  items := by
    intro it hit
    rw [seedCart_items] at hit
    obtain ⟨i, hi, rfl⟩ := List.mem_mapIdx.mp hit
    obtain ⟨hne, hzero, hle⟩ := seedNames_spec _ (List.getElem_mem hi)
    exact storable_new hne hzero hle
  title_nonzero := List.not_mem_nil
  title_le := Nat.zero_le _
  title_ne := by
    show ([] : List UInt8) ≠ _
    decide +kernel

end AmmarServer.SuperMarket
