import SparseVoxel.Sampler.Basic
import SparseVoxel.Proofs.Grid.Stored
import SparseVoxel.Proofs.Machine

/-!
# What a window shows

A window is a dense copy of a box of a grid. `cell?_window` says that at the index of a voxel of
the box, relative to the least corner, it shows what the grid reads there, however the voxel is
stored and in whichever order the stored blocks were found. The copy is made block by block, so
the induction is on the keys: after some of them the voxels of their blocks show what is read,
and the others still show the background.

`Window.Shows` joins this to the shape of the copy, which is that of the box also where the box is
empty. `window?_shows` is the main statement: a copy for which there is room is made, and it shows
the box whether the blocks were walked or scanned.
-/

namespace SparseVoxel

namespace Box

/-! ## Positions in a box -/

theorem sub_lo_add (b : Box) (c o : Coord) : c - b.lo + o = c + o - b.lo := by
  refine Vec3.ext ?_ ?_ ?_ <;> simp only [Vec3.add_x, Vec3.add_y, Vec3.add_z, Vec3.sub_x,
    Vec3.sub_y, Vec3.sub_z] <;> omega

theorem offset_lt {b : Box} {c : Coord} (h : c ∈ b) :
    (c - b.lo).x.toNat < b.dim.x ∧ (c - b.lo).y.toNat < b.dim.y ∧
      (c - b.lo).z.toNat < b.dim.z := by
  obtain ⟨hx, hy, hz⟩ := h
  simp only [dim, Vec3.zipWith, Vec3.sub_x, Vec3.sub_y, Vec3.sub_z]
  exact ⟨by omega, by omega, by omega⟩

/-- The position of a digit triple in mixed bases, the last digit running fastest. -/
theorem mixedPosition_lt {x y z a b c : Nat} (ha : a < x) (hb : b < y) (hc : c < z) :
    (a * y + b) * z + c < x * y * z := by
  have hab : a * y + b + 1 ≤ x * y :=
    calc a * y + b + 1 ≤ a * y + y := by omega
      _ = (a + 1) * y := by rw [Nat.add_mul, Nat.one_mul]
      _ ≤ x * y := Nat.mul_le_mul_right y ha
  calc (a * y + b) * z + c < (a * y + b) * z + z := by omega
    _ = (a * y + b + 1) * z := by rw [Nat.add_mul _ 1, Nat.one_mul]
    _ ≤ x * y * z := Nat.mul_le_mul_right z hab

theorem position_lt_volume {b : Box} {c : Coord} (h : c ∈ b) : b.position c < b.volume := by
  obtain ⟨hx, hy, hz⟩ := offset_lt h
  exact mixedPosition_lt hx hy hz

theorem position_inj {b : Box} {c d : Coord} (hc : c ∈ b) (hd : d ∈ b) :
    b.position c = b.position d ↔ c = d := by
  constructor
  · intro h
    obtain ⟨-, hcy, hcz⟩ := offset_lt hc
    obtain ⟨-, hdy, hdz⟩ := offset_lt hd
    obtain ⟨hxy, hz⟩ := mul_add_inj hcz hdz h
    obtain ⟨hx, hy⟩ := mul_add_inj hcy hdy hxy
    obtain ⟨⟨hc1, -⟩, ⟨hc2, -⟩, ⟨hc3, -⟩⟩ := hc
    obtain ⟨⟨hd1, -⟩, ⟨hd2, -⟩, ⟨hd3, -⟩⟩ := hd
    simp only [Vec3.sub_x, Vec3.sub_y, Vec3.sub_z] at hx hy hz
    exact Vec3.ext (by omega) (by omega) (by omega)
  · rintro rfl
    rfl

end Box

namespace Grid

variable {V : Type} {k : Nat}

/-! ## Copying -/

/-- Copying listed voxels of a box into its cells changes the cells of these voxels. -/
theorem getElem?_copy {box : Box} (f : Coord → Voxel V) (cs : List Coord)
    (hcs : ∀ c ∈ cs, c ∈ box) (cells : Array (Voxel V)) (hsize : cells.size = box.volume)
    {c : Coord} (hc : c ∈ box) :
    (cs.foldl (fun cells c => cells.setIfInBounds (box.position c) (f c)) cells)[box.position c]? =
      if c ∈ cs then some (f c) else cells[box.position c]? := by
  induction cs generalizing cells with
  | nil => simp
  | cons d cs ih =>
    have hd : d ∈ box := hcs d List.mem_cons_self
    have hlt : box.position d < cells.size := hsize ▸ Box.position_lt_volume hd
    rw [List.foldl_cons, ih (fun c h => hcs c (List.mem_cons_of_mem d h)) _ (by simpa using hsize),
      Array.getElem?_setIfInBounds]
    by_cases hmem : c ∈ cs
    · simp [hmem]
    · by_cases hdc : d = c
      · subst hdc
        simp [hmem, hlt]
      · have hpos : box.position d ≠ box.position c := fun h =>
          hdc ((Box.position_inj hd hc).mp h)
        simp [hmem, hpos, Ne.symm hdc]

theorem size_copy (box : Box) (f : Coord → Voxel V) (cs : List Coord) (cells : Array (Voxel V)) :
    (cs.foldl (fun cells c => cells.setIfInBounds (box.position c) (f c)) cells).size =
      cells.size := by
  induction cs generalizing cells with
  | nil => rfl
  | cons d cs ih => rw [List.foldl_cons, ih, Array.size_setIfInBounds]

/-- Pasting a block shows its voxels and leaves the others as they are. -/
theorem getElem?_paste (g : Grid V k) (w : Window V) (hsize : w.cells.size = w.box.volume)
    (key : Coord) {c : Coord} (hc : c ∈ w.box) :
    (g.paste w key).cells[w.box.position c]? =
      if Box.blockKey k c = key then some (g.read c) else w.cells[w.box.position c]? := by
  have hcs : ∀ c ∈ (w.box.inBlock k key).coords, c ∈ w.box := fun c h =>
    (Box.mem_inBlock.mp (Box.mem_coords.mp h)).1
  simp only [paste, getElem?_copy _ _ hcs _ hsize hc, Box.mem_coords, Box.mem_inBlock,
    and_iff_right hc]
  by_cases h : Box.blockKey k c = key
  · rw [if_pos h, if_pos h, read, h]
  · rw [if_neg h, if_neg h]

/-- After pasting blocks, their voxels show what is read, and the others what they showed. -/
theorem getElem?_pasteAll (g : Grid V k) (keys : List Coord) (w : Window V)
    (hsize : w.cells.size = w.box.volume) {c : Coord} (hc : c ∈ w.box) :
    (keys.foldl g.paste w).cells[w.box.position c]? =
      if Box.blockKey k c ∈ keys then some (g.read c) else w.cells[w.box.position c]? := by
  induction keys generalizing w with
  | nil => simp
  | cons key keys ih =>
    have hpaste := getElem?_paste g w hsize key hc
    have hsize' : (g.paste w key).cells.size = w.box.volume := by
      rw [← hsize]
      exact size_copy _ _ _ _
    have hrest := ih (g.paste w key) hsize' hc
    rw [List.foldl_cons]
    refine hrest.trans ?_
    by_cases hkeys : Box.blockKey k c ∈ keys
    · simp [hkeys]
    · rw [if_neg hkeys]
      refine hpaste.trans ?_
      simp [hkeys]

/-- The copy of a box made from the blocks under the given keys, all other voxels being unset. -/
def windowOf (g : Grid V k) (box : Box) (keys : List Coord) : Window V :=
  keys.foldl g.paste ⟨box, .replicate box.volume g.unset⟩

theorem window_eq_windowOf (g : Grid V k) (box : Box) :
    g.window box = g.windowOf box (if box.isEmpty then [] else g.storedKeys box) := by
  unfold window windowOf
  split
  · rfl
  · rfl

theorem box_windowOf (g : Grid V k) (box : Box) (keys : List Coord) :
    (g.windowOf box keys).box = box :=
  List.foldlRecOn (motive := fun w : Window V => w.box = box) _ _ rfl fun _ h _ _ => h

theorem size_windowOf (g : Grid V k) (box : Box) (keys : List Coord) :
    (g.windowOf box keys).cells.size = box.volume :=
  List.foldlRecOn (motive := fun w : Window V => w.cells.size = box.volume) _ _
    Array.size_replicate fun _ h _ _ => (size_copy _ _ _ _).trans h

/-- A copy made from keys among which are those of all stored blocks of the box shows what is
read. -/
theorem getElem?_windowOf (g : Grid V k) {box : Box} {keys : List Coord} {c : Coord}
    (hkeys : (g.block? (Box.blockKey k c)).isSome = true → Box.blockKey k c ∈ keys) (hc : c ∈ box) :
    (g.windowOf box keys).cells[box.position c]? = some (g.read c) := by
  rw [windowOf, getElem?_pasteAll g keys ⟨box, _⟩ Array.size_replicate hc]
  split
  · rfl
  · next hkey =>
    rw [read_of_not_stored (Bool.eq_false_iff.mpr fun hs => hkey (hkeys hs))]
    simp [Box.position_lt_volume hc]

theorem box_window (g : Grid V k) (box : Box) : (g.window box).box = box := by
  rw [window_eq_windowOf, box_windowOf]

theorem getElem?_window (g : Grid V k) {box : Box} {c : Coord} (hc : c ∈ box) :
    (g.window box).cells[box.position c]? = some (g.read c) := by
  rw [window_eq_windowOf, Box.isEmpty_eq_false.mpr (Box.nonempty_of_mem hc)]
  exact getElem?_windowOf g (blockKey_mem_storedKeys hc).mpr hc

end Grid

/-! ## Indexing -/

namespace Window

theorem wrapIndex?_of_lt {n : Nat} {i : Int} (h0 : 0 ≤ i) (h : i.toNat < n) :
    wrapIndex? n i = some i.toNat := by
  rw [wrapIndex?, if_pos ⟨h0, by omega⟩]

theorem isSome_wrapIndex? {n : Nat} {i : Int} :
    (wrapIndex? n i).isSome = true ↔ -(n : Int) ≤ i ∧ i < n := by
  unfold wrapIndex?
  split
  · exact iff_of_true rfl (by omega)
  · split
    · exact iff_of_true rfl (by omega)
    · exact iff_of_false Bool.false_ne_true (by omega)

theorem lt_of_wrapIndex? {n j : Nat} {i : Int} (h : wrapIndex? n i = some j) : j < n := by
  unfold wrapIndex? at h
  split at h
  · cases h
    omega
  · split at h
    · cases h
      omega
    · cases h

variable {V : Type}

/-- The index of a voxel relative to the least corner denotes the cell at its position. -/
theorem cell?_sub_lo (w : Window V) {c : Coord} (hc : c ∈ w.box) :
    w.cell? (c - w.box.lo) = w.cells[w.box.position c]? := by
  obtain ⟨hx, hy, hz⟩ := Box.offset_lt hc
  obtain ⟨⟨hx0, -⟩, ⟨hy0, -⟩, ⟨hz0, -⟩⟩ := hc
  simp only [cell?, wrapIndex?_of_lt (show 0 ≤ (c - w.box.lo).x by simpa using hx0) hx,
    wrapIndex?_of_lt (show 0 ≤ (c - w.box.lo).y by simpa using hy0) hy,
    wrapIndex?_of_lt (show 0 ≤ (c - w.box.lo).z by simpa using hz0) hz]
  rfl

/-- Where there are as many cells as the box has voxels, an index denotes one exactly if it lies
within the edge on each axis. -/
theorem isSome_cell? {w : Window V} (hsize : w.cells.size = w.box.volume) (i : Coord) :
    (w.cell? i).isSome = true ↔ ∀ axis,
      -(w.box.dim.get axis : Int) ≤ i.get axis ∧ i.get axis < w.box.dim.get axis := by
  constructor
  · intro h axis
    obtain ⟨v, hv⟩ := Option.isSome_iff_exists.mp h
    simp only [cell?, Option.bind_eq_bind, Option.bind_eq_some_iff] at hv
    obtain ⟨x, hx, y, hy, z, hz, -⟩ := hv
    refine isSome_wrapIndex?.mp (Option.isSome_iff_exists.mpr ?_)
    cases axis
    · exact ⟨x, hx⟩
    · exact ⟨y, hy⟩
    · exact ⟨z, hz⟩
  · intro h
    obtain ⟨x, hx⟩ := Option.isSome_iff_exists.mp (isSome_wrapIndex?.mpr (h .x))
    obtain ⟨y, hy⟩ := Option.isSome_iff_exists.mp (isSome_wrapIndex?.mpr (h .y))
    obtain ⟨z, hz⟩ := Option.isSome_iff_exists.mp (isSome_wrapIndex?.mpr (h .z))
    have hlt : (x * w.box.dim.y + y) * w.box.dim.z + z < w.cells.size := by
      rw [hsize]
      exact Box.mixedPosition_lt (lt_of_wrapIndex? hx) (lt_of_wrapIndex? hy) (lt_of_wrapIndex? hz)
    simp only [Vec3.get] at hx hy hz
    simp [cell?, hx, hy, hz, hlt]

/-- A window that shows a box of a grid: it has the edges of the box, an index denotes a cell
exactly if it lies within them, a negative one counting from the far end, and the cell at the offset
of a voxel from the least corner holds the state that is read there. -/
structure Shows {k : Nat} (w : Window V) (g : Grid V k) (box : Box) : Prop where
  size_eq : w.cells.size = box.dim.x * box.dim.y * box.dim.z
  isSome_iff : ∀ i : Coord, (w.cell? i).isSome = true ↔
    ∀ axis, -(box.dim.get axis : Int) ≤ i.get axis ∧ i.get axis < box.dim.get axis
  cell_eq : ∀ c ∈ box, w.cell? (c - box.lo) = some (g.read c)

end Window

/-! ## What is shown -/

namespace Grid

variable {V : Type} {k : Nat}

theorem cell?_window (g : Grid V k) {box : Box} {c : Coord} (hc : c ∈ box) :
    (g.window box).cell? (c - box.lo) = some (g.read c) := by
  have hbox := box_window g box
  have hcell := (g.window box).cell?_sub_lo (hbox.symm ▸ hc)
  rw [hbox, getElem?_window g hc] at hcell
  exact hcell

theorem shows_windowOf (g : Grid V k) {box : Box} {keys : List Coord}
    (hkeys : ∀ c ∈ box, (g.block? (Box.blockKey k c)).isSome = true → Box.blockKey k c ∈ keys) :
    (g.windowOf box keys).Shows g box := by
  have hbox := box_windowOf g box keys
  have hsize := size_windowOf g box keys
  refine ⟨hsize, fun i => ?_, fun c hc => ?_⟩
  · have hcell := Window.isSome_cell? (w := g.windowOf box keys) (by rw [hbox, hsize]) i
    rwa [hbox] at hcell
  · have hcell := (g.windowOf box keys).cell?_sub_lo (c := c) (by rwa [hbox])
    rwa [hbox, getElem?_windowOf g (hkeys c hc) hc] at hcell

/-- **A window shows its box.** On a machine with room for it the copy of a box is made, also of an
empty one. It has the shape of the box and shows what the grid reads at each voxel of it, and so do
the copies made by walking the blocks of the box and by scanning the store. -/
theorem window?_shows [Sized V] {machine : Machine} (g : Grid V k) (box : Box)
    (hroom : machine.reserve? box.dim (Sized.bytes V) = .ok ()) :
    (∃ w, g.window? machine box = .ok w ∧ w.Shows g box) ∧
      (g.windowOf box (g.walkedKeys box)).Shows g box ∧
        (g.windowOf box (g.scannedKeys box)).Shows g box := by
  have hrange : ∀ c ∈ box, Box.blockKey k c ∈ box.blockRange k := fun c hc =>
    Box.mem_blocks.mp (Box.blockKey_mem_blocks hc)
  refine ⟨⟨g.window box, ?_, ?_⟩, ?_, ?_⟩
  · rw [window?, hroom]
    rfl
  · rw [window_eq_windowOf]
    refine shows_windowOf g fun c hc hs => ?_
    rw [Box.isEmpty_eq_false.mpr (Box.nonempty_of_mem hc)]
    exact (blockKey_mem_storedKeys hc).mpr hs
  · exact shows_windowOf g fun c hc hs => mem_walkedKeys.mpr ⟨hrange c hc, hs⟩
  · exact shows_windowOf g fun c hc hs => mem_scannedKeys.mpr ⟨hrange c hc, hs⟩

/-- A box with voxels of a tile, of a leaf and of absent blocks on both sides of the origin. -/
theorem window?_shows_of_leaf_and_tile :
    let g : Grid Int32 1 :=
      ((Grid.empty 5).fill (Box.ofBlock 1 ⟨-1, 0, 0⟩) ⟨7, true⟩).write ⟨0, 1, -3⟩ ⟨9, false⟩
    let box : Box := ⟨⟨-3, 0, -3⟩, ⟨1, 1, 0⟩⟩
    Machine.words.reserve? box.dim (Sized.bytes Int32) = .ok () ∧
      (∃ w, g.window? .words box = .ok w ∧ w.Shows g box) ∧
        (g.windowOf box (g.walkedKeys box)).Shows g box ∧
          (g.windowOf box (g.scannedKeys box)).Shows g box := by
  intro g box
  have hroom : Machine.words.reserve? box.dim (Sized.bytes Int32) = .ok () :=
    Machine.reserve?_words_iff.mpr (by decide)
  exact ⟨hroom, window?_shows g box hroom⟩

end Grid

end SparseVoxel
