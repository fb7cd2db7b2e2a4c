import Zaytos.Lib.Raster

set_option autoImplicit false

/-! The rectangle of the screen that is still to be transferred (`console/dirty.rs`). -/
namespace Zaytos.Terminal

structure Rect where
  x : Nat
  y : Nat
  width : Nat
  height : Nat
  deriving DecidableEq

namespace Rect

def right (r : Rect) : Nat := min (r.x + r.width) (2 ^ 32 - 1)

def bottom (r : Rect) : Nat := min (r.y + r.height) (2 ^ 32 - 1)

end Rect

/-- `DirtyRegion`: the rectangle that is still to be transferred. -/
structure DirtyRegion where
  screenWidth : Nat
  screenHeight : Nat
  bounds : Option Rect
  deriving DecidableEq

namespace DirtyRegion

def new (screenWidth screenHeight : Nat) : DirtyRegion := ⟨screenWidth, screenHeight, none⟩

def clip (d : DirtyRegion) (x y width height : Nat) : Option Rect :=
  if width = 0 ∨ height = 0 ∨ d.screenWidth ≤ x ∨ d.screenHeight ≤ y then none
  else some ⟨x, y, min width (d.screenWidth - x), min height (d.screenHeight - y)⟩

def mark (d : DirtyRegion) (x y width height : Nat) : DirtyRegion :=
  match d.clip x y width height with
  | none => d
  | some rect => match d.bounds with
    | none => { d with bounds := some rect }
    | some current =>
      let x := min current.x rect.x
      let y := min current.y rect.y
      let right := max current.right rect.right
      let bottom := max current.bottom rect.bottom
      { d with bounds := some ⟨x, y, right - x, bottom - y⟩ }

def markAll (d : DirtyRegion) : DirtyRegion := d.mark 0 0 d.screenWidth d.screenHeight

def take (d : DirtyRegion) : Option Rect × DirtyRegion := (d.bounds, { d with bounds := none })

structure Fits (d : DirtyRegion) (rect : Rect) : Prop where
  width_pos : 0 < rect.width
  height_pos : 0 < rect.height
  right : rect.x + rect.width ≤ d.screenWidth
  bottom : rect.y + rect.height ≤ d.screenHeight

structure Sound (d : DirtyRegion) : Prop where
  width_lt : d.screenWidth < 2 ^ 32
  height_lt : d.screenHeight < 2 ^ 32
  fits : ∀ rect, d.bounds = some rect → d.Fits rect

def Covers (d : DirtyRegion) (i j : Nat) : Prop :=
  ∃ rect, d.bounds = some rect ∧ Raster.Within rect.x rect.y rect.width rect.height i j

section Marking

variable {d : DirtyRegion} {x y width height i j : Nat}

theorem mark_size (d : DirtyRegion) (x y width height : Nat) :
    (d.mark x y width height).screenWidth = d.screenWidth ∧
      (d.mark x y width height).screenHeight = d.screenHeight := by
  unfold mark
  split
  · exact ⟨rfl, rfl⟩
  · split <;> exact ⟨rfl, rfl⟩

theorem mark_cases (d : DirtyRegion) (x y width height : Nat) :
    (d.clip x y width height = none ∧ d.mark x y width height = d) ∨
    (∃ rect, d.clip x y width height = some rect ∧ d.bounds = none ∧
      d.mark x y width height = { d with bounds := some rect }) ∨
    ∃ rect current, d.clip x y width height = some rect ∧ d.bounds = some current ∧
      d.mark x y width height = { d with
        bounds := some ⟨min current.x rect.x, min current.y rect.y,
          max current.right rect.right - min current.x rect.x,
          max current.bottom rect.bottom - min current.y rect.y⟩ } := by
  unfold mark
  cases clipped : d.clip x y width height with
  | none => exact .inl ⟨rfl, rfl⟩
  | some rect =>
    cases bounds : d.bounds with
    | none => exact .inr (.inl ⟨rect, rfl, rfl, rfl⟩)
    | some current => exact .inr (.inr ⟨rect, current, rfl, rfl, rfl⟩)

theorem clip_fits {rect : Rect} (clipped : d.clip x y width height = some rect) : d.Fits rect := by
  unfold clip at clipped
  split at clipped
  · cases clipped
  · cases clipped
    constructor <;> dsimp only <;> omega

theorem clip_within {rect : Rect} (clipped : d.clip x y width height = some rect)
    (column : i < d.screenWidth) (row : j < d.screenHeight)
    (within : Raster.Within x y width height i j) :
    Raster.Within rect.x rect.y rect.width rect.height i j := by
  unfold clip at clipped
  split at clipped
  · cases clipped
  · cases clipped
    unfold Raster.Within at *
    dsimp only
    omega

theorem clip_none (clipped : d.clip x y width height = none) (column : i < d.screenWidth)
    (row : j < d.screenHeight) : ¬ Raster.Within x y width height i j := by
  unfold clip at clipped
  split at clipped
  · unfold Raster.Within
    omega
  · cases clipped

theorem mark_sound (sound : d.Sound) (x y width height : Nat) : (d.mark x y width height).Sound := by
  have wide := sound.width_lt
  have tall := sound.height_lt
  obtain ⟨-, same⟩ | ⟨rect, clipped, -, same⟩ | ⟨rect, current, clipped, bounds, same⟩ :=
    mark_cases d x y width height
  · rw [same]
    exact sound
  · rw [same]
    refine ⟨wide, tall, ?_⟩
    intro rect' found
    cases found
    have fits := clip_fits clipped
    exact ⟨fits.width_pos, fits.height_pos, fits.right, fits.bottom⟩
  · rw [same]
    refine ⟨wide, tall, ?_⟩
    intro rect' found
    cases found
    obtain ⟨newWidth, newHeight, newRight, newBottom⟩ := clip_fits clipped
    obtain ⟨oldWidth, oldHeight, oldRight, oldBottom⟩ := sound.fits _ bounds
    constructor <;> dsimp only [Rect.right, Rect.bottom] <;> omega

theorem mark_keeps (sound : d.Sound) (covers : d.Covers i j) :
    (d.mark x y width height).Covers i j := by
  have wide := sound.width_lt
  have tall := sound.height_lt
  obtain ⟨old, found, within⟩ := covers
  obtain ⟨-, same⟩ | ⟨rect, clipped, bounds, same⟩ | ⟨rect, current, clipped, bounds, same⟩ :=
    mark_cases d x y width height
  · rw [same]
    exact ⟨old, found, within⟩
  · rw [bounds] at found
    cases found
  · rw [bounds] at found
    cases found
    rw [same]
    refine ⟨_, rfl, ?_⟩
    obtain ⟨newWidth, newHeight, newRight, newBottom⟩ := clip_fits clipped
    obtain ⟨oldWidth, oldHeight, oldRight, oldBottom⟩ := sound.fits _ bounds
    unfold Raster.Within at *
    dsimp only [Rect.right, Rect.bottom]
    omega

theorem mark_covers (sound : d.Sound) (column : i < d.screenWidth) (row : j < d.screenHeight)
    (within : Raster.Within x y width height i j) : (d.mark x y width height).Covers i j := by
  have wide := sound.width_lt
  have tall := sound.height_lt
  obtain ⟨clipped, -⟩ | ⟨rect, clipped, bounds, same⟩ | ⟨rect, current, clipped, bounds, same⟩ :=
    mark_cases d x y width height
  · exact absurd within (clip_none clipped column row)
  · rw [same]
    exact ⟨rect, rfl, clip_within clipped column row within⟩
  · rw [same]
    refine ⟨_, rfl, ?_⟩
    have inside := clip_within clipped column row within
    obtain ⟨newWidth, newHeight, newRight, newBottom⟩ := clip_fits clipped
    obtain ⟨oldWidth, oldHeight, oldRight, oldBottom⟩ := sound.fits _ bounds
    unfold Raster.Within at *
    dsimp only [Rect.right, Rect.bottom]
    omega

theorem new_sound {screenWidth screenHeight : Nat} (wide : screenWidth < 2 ^ 32)
    (tall : screenHeight < 2 ^ 32) : (new screenWidth screenHeight).Sound := by
  refine ⟨wide, tall, ?_⟩
  intro rect found
  cases found

theorem markAll_covers (sound : d.Sound) (column : i < d.screenWidth) (row : j < d.screenHeight) :
    d.markAll.Covers i j := by
  apply mark_covers sound column row
  unfold Raster.Within
  omega

end Marking

end DirtyRegion

end Zaytos.Terminal
