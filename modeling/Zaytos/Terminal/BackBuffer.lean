import Zaytos.Terminal.Dirty
import Zaytos.Terminal.Framebuffer

set_option autoImplicit false

/-! The surface that the console draws on and its transfer to the screen
(`console/backbuffer.rs`). -/
namespace Zaytos.Terminal

open Kernel.Paging (Word)

inductive BackBufferError where
  | invalidLayout (error : LayoutError)
  | overlapsFramebuffer (backStart backEnd frontStart frontEnd : Nat)
  deriving DecidableEq

structure FlushRangeError where
  row : Nat
  backOffset : Option Nat
  frontOffset : Option Nat
  bytes : Nat
  backSizeBytes : Nat
  frontSizeBytes : Nat
  rect : Rect
  deriving DecidableEq

namespace Framebuffer

/-- `BackBuffer::new`, on memory that holds what it held before. -/
def newBackBuffer (base : Word) (frontLayout : FramebufferLayout) (pixels : List UInt32) :
    Except BackBufferError Framebuffer :=
  match frontLayout.withBase base with
  | .error error => .error (.invalidLayout error)
  | .ok layout =>
    let backEnd := layout.base.toNat + layout.sizeBytes
    let frontEnd := frontLayout.base.toNat + frontLayout.sizeBytes
    if layout.base.toNat < frontEnd ∧ frontLayout.base.toNat < backEnd then
      .error (.overlapsFramebuffer layout.base.toNat backEnd frontLayout.base.toNat frontEnd)
    else .ok ⟨layout, pixels⟩

def clearAll (f : Framebuffer) (color : Rgb) : Option Framebuffer := do
  let pixel ← color.toPixel f.layout.format
  let pixels ← Slices.fill f.pixels 0 f.pixels.length pixel
  some { f with pixels }

def clearRows (f : Framebuffer) (top height : Nat) (color : Rgb) : Option Framebuffer :=
  let screenHeight := f.layout.height
  if height = 0 ∨ screenHeight ≤ top then some f
  else do
    let height := min height (screenHeight - top)
    let pixel ← color.toPixel f.layout.format
    let start := top * f.layout.stride
    match Slices.fill f.pixels start (start + height * f.layout.stride) pixel with
    | some pixels => some { f with pixels }
    | none => some f

def deleteRows (f : Framebuffer) (top lines : Nat) (color : Rgb) : Option Framebuffer :=
  let height := f.layout.height
  if lines = 0 ∨ height ≤ top then some f
  else do
    let lines := min lines (height - top)
    let stride := f.layout.stride
    let first := top * stride
    let start := (← add32 top lines) * stride
    let stop := height * stride
    let pixels ← if start < stop ∧ stop ≤ f.pixels.length then
      Slices.copyWithin f.pixels start stop first else some f.pixels
    clearRows { f with pixels } (height - lines) lines color

def insertRows (f : Framebuffer) (top lines : Nat) (color : Rgb) : Option Framebuffer :=
  let height := f.layout.height
  if lines = 0 ∨ height ≤ top then some f
  else do
    let lines := min lines (height - top)
    let stride := f.layout.stride
    let first := top * stride
    let dest := (← add32 top lines) * stride
    let stop := height * stride
    let pixels ← if dest < stop ∧ stop ≤ f.pixels.length then
      let moved := stop - dest
      Slices.copyWithin f.pixels first (first + moved) dest else some f.pixels
    clearRows { f with pixels } top lines color

def scrollUp (f : Framebuffer) (lines : Nat) (color : Rgb) : Option Framebuffer :=
  if lines = 0 then some f
  else if f.layout.height ≤ lines then f.clearAll color
  else f.deleteRows 0 lines color

/-- `copy_nonoverlapping` of pixels at one offset in both. -/
def copyPixels (back front : Framebuffer) (backOffset frontOffset count : Nat) : Option Framebuffer :=
  if backOffset / bytesPerPixel + count ≤ back.pixels.length then
    front.writeAt frontOffset ((back.pixels.drop (backOffset / bytesPerPixel)).take count)
  else none

/-- The loop of `flush_rect` over rows, from one on. -/
def flushRows (back : Framebuffer) (rect : Rect) : (row count : Nat) → (front : Framebuffer) →
    (transferred : Nat) → Option (Except FlushRangeError (Nat × Framebuffer))
  | _, 0, front, transferred => some (.ok (transferred, front))
  | row, count + 1, front, transferred =>
    let backOffset := back.layout.pixelOffsetBytes rect.x row
    let frontOffset := front.layout.pixelOffsetBytes rect.x row
    let bytes := rect.width * bytesPerPixel
    let fits := match backOffset, frontOffset with
      | some backOffset, some frontOffset => decide (backOffset + bytes ≤ back.layout.sizeBytes ∧
          frontOffset + bytes ≤ front.layout.sizeBytes)
      | _, _ => false
    if !fits then
      some (.error ⟨row, backOffset, frontOffset, bytes, back.layout.sizeBytes,
        front.layout.sizeBytes, rect⟩)
    else do
      let front ← back.copyPixels front (backOffset.getD 0) (frontOffset.getD 0) rect.width
      back.flushRows rect (row + 1) count front (transferred + bytes)

/-- `flush_rect`: how many bytes were transferred, and the screen. -/
def flushRect (back front : Framebuffer) (rect : Rect) :
    Option (Except FlushRangeError (Nat × Framebuffer)) :=
  if front.layout.stride = back.layout.stride ∧ rect.x = 0 ∧ rect.width = front.layout.stride then
    let start := back.layout.pixelOffsetBytes 0 rect.y
    let pixels := rect.height * front.layout.stride
    let bytes := pixels * bytesPerPixel
    let fits := start.any fun s =>
      decide (s + bytes ≤ front.layout.sizeBytes ∧ s + bytes ≤ back.layout.sizeBytes)
    if !fits then
      some (.error ⟨rect.y, start, front.layout.pixelOffsetBytes 0 rect.y, bytes,
        back.layout.sizeBytes, front.layout.sizeBytes, rect⟩)
    else do
      let front ← back.copyPixels front (start.getD 0) (start.getD 0) pixels
      some (.ok (bytes, front))
  else back.flushRows rect rect.y (rect.bottom - rect.y) front 0

variable {f : Framebuffer} {top lines height : Nat}

theorem clearAll_shows (sound : f.Sound) (color : Rgb) :
    Shows (f.clearAll color) f.layout (f.readPixelRaw.blank (pixelOf f.layout color)) := by
  obtain ⟨pixels, filled⟩ := Slices.fill_of_le (Nat.zero_le _)
    (le_refl f.pixels.length)
  rw [clearAll, toPixel_eq, Option.bind_eq_bind, Option.bind_some, filled, Option.bind_eq_bind,
    Option.bind_some]
  apply shows_pixels sound (Slices.length_fill filled)
  funext i j
  rw [readPixelRaw_eq, Raster.blank]
  unfold Raster.ofRows
  by_cases inside : i < f.layout.width ∧ j < f.layout.height
  · have bound := Raster.index_lt f.layout.narrow inside.1 inside.2 sound.room
    rw [if_pos inside, if_pos inside, Slices.getElem?_fill filled, if_pos ⟨Nat.zero_le _, bound⟩,
      List.getElem?_eq_getElem bound]
    rfl
  · rw [if_neg inside, if_neg inside]
    rfl

theorem clearRows_shows (sound : f.Sound) (top height : Nat) (color : Rgb) :
    Shows (f.clearRows top height color) f.layout
      (f.readPixelRaw.fill 0 top f.layout.width height (pixelOf f.layout color)) := by
  unfold clearRows
  by_cases nothing : height = 0 ∨ f.layout.height ≤ top
  · rw [if_pos nothing]
    apply (shows_self sound).mono
    rcases nothing with rfl | past
    · rw [Raster.fill_flat]
    · rw [sound.sized.fill_past (.inr past)]
  · rw [if_neg nothing]
    dsimp only
    rw [toPixel_eq, Option.bind_eq_bind, Option.bind_some]
    have bound : top * f.layout.stride + min height (f.layout.height - top) * f.layout.stride ≤
        f.pixels.length := by
      have rows := Nat.mul_le_mul_right f.layout.stride
        (show top + min height (f.layout.height - top) ≤ f.layout.height by omega)
      rw [add_mul] at rows
      exact rows.trans sound.room
    obtain ⟨pixels, filled⟩ := Slices.fill_of_le
      (Nat.le_add_right _ _) bound
    rw [filled]
    apply shows_pixels sound (Slices.length_fill filled)
    rw [Raster.ofRows_fill_rows f.layout.narrow sound.room filled, ← readPixelRaw_eq]
    have clipped : f.readPixelRaw.fill 0 top (min f.layout.width (f.layout.width - 0))
        (min height (f.layout.height - top)) (pixelOf f.layout color) =
        f.readPixelRaw.fill 0 top f.layout.width height (pixelOf f.layout color) :=
      sound.sized.fill_min
    rw [Nat.sub_zero, Nat.min_self] at clipped
    exact clipped

theorem moved_shows (sound : f.Sound) {pixels : List UInt32} {p : Raster UInt32}
    (kept : pixels.length = f.pixels.length) (color : Rgb)
    (picture : (Raster.ofRows pixels f.layout.width f.layout.height f.layout.stride).fill 0 top
      f.layout.width height (pixelOf f.layout color) = p) :
    Shows (clearRows { f with pixels } top height color) f.layout p := by
  obtain ⟨t, same, layout, after, shown⟩ := shows_pixels sound kept rfl
  rw [Option.some.injEq] at same
  subst same
  apply (clearRows_shows after top height color).mono
  rw [shown]
  exact picture

theorem deleteRows_shows (sound : f.Sound) (top lines : Nat) (color : Rgb) :
    Shows (f.deleteRows top lines color) f.layout
      (f.readPixelRaw.deleteRows top lines (pixelOf f.layout color)) := by
  have tall := f.layout.height_lt
  unfold deleteRows
  by_cases nothing : lines = 0 ∨ f.layout.height ≤ top
  · rw [if_pos nothing]
    apply (shows_self sound).mono
    rcases nothing with rfl | past
    · rw [Raster.deleteRows_zero]
    · rw [sound.sized.deleteRows_past past]
  · rw [if_neg nothing]
    dsimp only
    have fits : top + min lines (f.layout.height - top) ≤ f.layout.height := by omega
    rw [add32_of_lt (by omega), Option.bind_eq_bind, Option.bind_some, Option.bind_eq_bind,
      sound.sized.deleteRows_min]
    generalize min lines (f.layout.height - top) = n at fits ⊢
    have shape := sound.sized
    rw [readPixelRaw_eq] at shape
    have room := sound.room
    by_cases copies : (top + n) * f.layout.stride < f.layout.height * f.layout.stride
    · rw [if_pos ⟨copies, room⟩]
      have less := Nat.mul_le_mul_right f.layout.stride (show top ≤ top + n by omega)
      have moves : top * f.layout.stride +
          (f.layout.height * f.layout.stride - (top + n) * f.layout.stride) ≤ f.pixels.length := by
        omega
      obtain ⟨pixels, copied⟩ := Slices.copyWithin_of_le (le_of_lt copies) room moves
      rw [copied, Option.bind_some]
      apply moved_shows sound (Slices.length_copyWithin copied)
      rw [shape.fill_moved_up fits (Raster.ofRows_copy_up f.layout.narrow fits copied),
        ← readPixelRaw_eq]
    · rw [if_neg (fun both => copies both.1), Option.bind_some]
      have whole := Nat.le_of_mul_le_mul_right (Nat.not_lt.mp copies)
        (Nat.lt_of_lt_of_le f.layout.width_pos f.layout.narrow)
      apply moved_shows sound rfl
      rw [shape.fill_moved_up fits, ← readPixelRaw_eq]
      intro i j
      rw [if_neg (by omega)]

theorem insertRows_shows (sound : f.Sound) (top lines : Nat) (color : Rgb) :
    Shows (f.insertRows top lines color) f.layout
      (f.readPixelRaw.insertRows top lines (pixelOf f.layout color)) := by
  have tall := f.layout.height_lt
  unfold insertRows
  by_cases nothing : lines = 0 ∨ f.layout.height ≤ top
  · rw [if_pos nothing]
    apply (shows_self sound).mono
    rcases nothing with rfl | past
    · rw [Raster.insertRows_zero]
    · rw [sound.sized.insertRows_past past]
  · rw [if_neg nothing]
    dsimp only
    have fits : top + min lines (f.layout.height - top) ≤ f.layout.height := by omega
    rw [add32_of_lt (by omega), Option.bind_eq_bind, Option.bind_some, Option.bind_eq_bind,
      sound.sized.insertRows_min]
    generalize min lines (f.layout.height - top) = n at fits ⊢
    have shape := sound.sized
    rw [readPixelRaw_eq] at shape
    have room := sound.room
    by_cases copies : (top + n) * f.layout.stride < f.layout.height * f.layout.stride
    · rw [if_pos ⟨copies, room⟩]
      have first := Nat.mul_le_mul_right f.layout.stride (show top ≤ top + n by omega)
      have copy : ∃ pixels, Slices.copyWithin f.pixels (top * f.layout.stride)
          (top * f.layout.stride +
            (f.layout.height * f.layout.stride - (top + n) * f.layout.stride))
          ((top + n) * f.layout.stride) = some pixels :=
        Slices.copyWithin_of_le (by omega) (by omega) (by omega)
      obtain ⟨pixels, copied⟩ := copy
      rw [copied, Option.bind_some]
      apply moved_shows sound (Slices.length_copyWithin copied)
      rw [shape.fill_moved_down (Raster.ofRows_copy_down f.layout.narrow fits copied),
        ← readPixelRaw_eq]
    · rw [if_neg (fun both => copies both.1), Option.bind_some]
      have whole := Nat.le_of_mul_le_mul_right (Nat.not_lt.mp copies)
        (Nat.lt_of_lt_of_le f.layout.width_pos f.layout.narrow)
      apply moved_shows sound rfl
      rw [shape.fill_moved_down, ← readPixelRaw_eq]
      intro i j
      rw [if_neg (by omega)]

theorem scrollUp_shows (sound : f.Sound) (lines : Nat) (color : Rgb) :
    Shows (f.scrollUp lines color) f.layout
      (f.readPixelRaw.deleteRows 0 lines (pixelOf f.layout color)) := by
  unfold scrollUp
  by_cases nothing : lines = 0
  · rw [if_pos nothing, nothing, Raster.deleteRows_zero]
    exact shows_self sound
  rw [if_neg nothing]
  by_cases all : f.layout.height ≤ lines
  · rw [if_pos all, sound.sized.deleteRows_all all]
    exact clearAll_shows sound color
  · rw [if_neg all]
    exact deleteRows_shows sound 0 lines color

section Transfer

variable {back front : Framebuffer}

structure SameShape (back front : Framebuffer) : Prop where
  width : front.layout.width = back.layout.width
  height : front.layout.height = back.layout.height
  stride : front.layout.stride = back.layout.stride
  size : front.layout.sizeBytes = back.layout.sizeBytes

theorem newBackBuffer_ok {base : Word} {layout : FramebufferLayout} {pixels : List UInt32}
    (made : newBackBuffer base layout pixels = .ok back) :
    back.pixels = pixels ∧ back.layout = { layout with base } := by
  unfold newBackBuffer at made
  cases based : layout.withBase base with
  | error error =>
    rw [based] at made
    cases made
  | ok placed =>
    rw [based] at made
    unfold FramebufferLayout.withBase at based
    split_ifs at based
    cases based
    dsimp only at made
    split at made
    · cases made
    · cases made
      exact ⟨rfl, rfl⟩

theorem copyPixels_shows (sound : back.Sound) (soundFront : front.Sound) (shape : SameShape back front)
    {offset start count x y w h : Nat} (place : offset = start * bytesPerPixel)
    (bound : start + count ≤ back.layout.height * back.layout.stride)
    (hits : ∀ i j, i < back.layout.width → j < back.layout.height →
      (start ≤ j * back.layout.stride + i ∧ j * back.layout.stride + i < start + count ↔
        Raster.Within x y w h i j)) :
    Shows (back.copyPixels front offset offset count) front.layout
      (front.readPixelRaw.copy back.readPixelRaw x y w h) := by
  have index : offset / bytesPerPixel = start := by
    rw [place, Nat.mul_div_cancel _ (by decide)]
  have room := sound.room
  have roomFront := soundFront.room
  rw [shape.height, shape.stride] at roomFront
  unfold copyPixels writeAt
  rw [index, if_pos (by omega)]
  have put : ∃ pixels, Slices.write front.pixels start ((back.pixels.drop start).take count) =
      some pixels := by
    apply Slices.write_of_le
    rw [List.length_take, List.length_drop]
    omega
  obtain ⟨pixels, written⟩ := put
  rw [written, Option.bind_eq_bind, Option.bind_some]
  apply shows_pixels soundFront (Slices.length_write written)
  rw [readPixelRaw_eq, readPixelRaw_eq, shape.width, shape.height, shape.stride]
  exact Raster.ofRows_copy (by omega) hits written

theorem flushRows_total (sound : back.Sound) (soundFront : front.Sound)
    (shape : SameShape back front) (rect : Rect) (pos : 0 < rect.width) (row count transferred : Nat)
    (right : rect.x + rect.width ≤ back.layout.width) (bottom : row + count ≤ back.layout.height) :
    ∃ bytes t, back.flushRows rect row count front transferred = some (.ok (bytes, t)) ∧
      t.layout = front.layout ∧ t.Sound ∧
      t.readPixelRaw = front.readPixelRaw.copy back.readPixelRaw rect.x row rect.width count := by
  induction count generalizing front row transferred with
  | zero =>
    rw [Raster.copy_flat]
    exact ⟨transferred, front, rfl, rfl, soundFront, rfl⟩
  | succ count ih =>
    have narrow := back.layout.narrow
    have room := back.layout.room
    have last := Nat.mul_le_mul_right back.layout.stride (show row + 1 ≤ back.layout.height by omega)
    have split : (row + 1) * back.layout.stride = row * back.layout.stride + back.layout.stride := by
      ring
    have size := shape.size
    have offset := pixelOffsetBytes_eq back.layout (x := rect.x) (y := row) ⟨by omega, by omega⟩
    have offsetFront : front.layout.pixelOffsetBytes rect.x row =
        some ((row * back.layout.stride + rect.x) * bytesPerPixel) := by
      rw [← shape.stride]
      apply pixelOffsetBytes_eq
      rw [shape.width, shape.height]
      omega
    obtain ⟨next, copied, layout, soundNext, picture⟩ := copyPixels_shows sound soundFront shape
      rfl
      (show row * back.layout.stride + rect.x + rect.width ≤ _ by omega)
      (x := rect.x) (y := row) (w := rect.width) (h := 1) (by
        intro i j column inside
        rw [Raster.span_index _ _ (by omega) (by omega)]
        unfold Raster.Within
        omega)
    have shapeNext : SameShape back next := by
      constructor
      all_goals rw [layout]
      exacts [shape.width, shape.height, shape.stride, shape.size]
    obtain ⟨bytes, t, rest, layoutRest, soundRest, pictureRest⟩ :=
      ih soundNext shapeNext (row + 1) (transferred + rect.width * bytesPerPixel) (by omega)
    refine ⟨bytes, t, ?_, layoutRest.trans layout, soundRest, ?_⟩
    · unfold flushRows
      rw [offset, offsetFront]
      have fits : decide ((row * back.layout.stride + rect.x) * bytesPerPixel +
          rect.width * bytesPerPixel ≤ back.layout.sizeBytes ∧
          (row * back.layout.stride + rect.x) * bytesPerPixel + rect.width * bytesPerPixel ≤
            front.layout.sizeBytes) = true := by
        apply decide_eq_true
        unfold bytesPerPixel at *
        omega
      simp only [fits, Bool.not_true, Bool.false_eq_true, if_false, Option.getD_some, copied,
        Option.bind_eq_bind, Option.bind_some, rest]
    · rw [pictureRest, picture, Raster.copy_below, add_comm 1 count]

theorem flushRect_total (sound : back.Sound) (soundFront : front.Sound)
    (shape : SameShape back front) {rect : Rect} (pos : 0 < rect.width) (tall : 0 < rect.height)
    (right : rect.x + rect.width ≤ back.layout.width)
    (bottom : rect.y + rect.height ≤ back.layout.height) :
    ∃ bytes t, back.flushRect front rect = some (.ok (bytes, t)) ∧
      t.layout = front.layout ∧ t.Sound ∧
      t.readPixelRaw = front.readPixelRaw.copy back.readPixelRaw rect.x rect.y rect.width
        rect.height := by
  have narrow := back.layout.narrow
  have room := back.layout.room
  have size := shape.size
  unfold flushRect
  by_cases whole : front.layout.stride = back.layout.stride ∧ rect.x = 0 ∧
      rect.width = front.layout.stride
  · have wide := back.layout.width_pos
    have full : back.layout.stride = back.layout.width := by
      have := shape.stride
      omega
    have offset := pixelOffsetBytes_eq back.layout (x := 0) (y := rect.y) ⟨wide, by omega⟩
    rw [add_zero] at offset
    have rows := Nat.mul_le_mul_right back.layout.stride bottom
    rw [add_mul] at rows
    obtain ⟨t, copied, layout, after, picture⟩ := copyPixels_shows sound soundFront shape
      rfl
      rows
      (x := rect.x) (y := rect.y) (w := rect.width) (h := rect.height) (by
        intro i j column inside
        rw [← add_mul, Raster.le_row_index _ _ (by omega), Raster.row_index _ _ (by omega)]
        unfold Raster.Within
        omega)
    refine ⟨rect.height * back.layout.stride * bytesPerPixel, t, ?_, layout, after, picture⟩
    rw [if_pos whole, offset, shape.stride]
    have fits : decide (rect.y * back.layout.stride * bytesPerPixel +
        rect.height * back.layout.stride * bytesPerPixel ≤ front.layout.sizeBytes ∧
        rect.y * back.layout.stride * bytesPerPixel +
          rect.height * back.layout.stride * bytesPerPixel ≤ back.layout.sizeBytes) = true := by
      apply decide_eq_true
      unfold bytesPerPixel at *
      omega
    simp only [Option.any_some, fits, Bool.not_true, Bool.false_eq_true, if_false,
      Option.getD_some, copied, Option.bind_eq_bind, Option.bind_some]
  · rw [if_neg whole]
    have count : rect.bottom - rect.y = rect.height := by
      have := back.layout.height_lt
      unfold Rect.bottom
      omega
    rw [count]
    exact flushRows_total sound soundFront shape rect pos rect.y rect.height 0 right bottom

end Transfer

end Framebuffer

end Zaytos.Terminal
