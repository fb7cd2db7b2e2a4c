import Zaytos.Kernel.PageWalk
import Zaytos.Terminal.Font
import Zaytos.Terminal.Grid

set_option autoImplicit false

/-! The pixels of a screen in memory (`graphics/layout.rs`, `color.rs`, `framebuffer.rs` and
`text.rs`), for a surface in ordinary memory; `none` where a write would leave the memory. -/
namespace Zaytos.Terminal

open Kernel.Paging (Word isCanonical)

inductive PixelFormat where
  | rgb
  | bgr
  | bitmask
  | bltOnly
  deriving DecidableEq

abbrev bytesPerPixel : Nat := 4

structure FramebufferInfo where
  physicalAddress : Nat
  sizeBytes : Nat
  width : Nat
  height : Nat
  stride : Nat
  pixelFormat : PixelFormat
  deriving DecidableEq

inductive LayoutError where
  | unsupportedPixelFormat (format : PixelFormat)
  | nullBaseAddress
  | misalignedBaseAddress (base : Nat)
  | zeroDimension (width height : Nat)
  | strideLessThanWidth (stride width : Nat)
  | sizeTooSmall (required sizeBytes : Nat)
  | addressOverflow
  deriving DecidableEq

/-- `FramebufferLayout`: a layout that has passed all checks. -/
structure FramebufferLayout where
  base : Word
  sizeBytes : Nat
  width : Nat
  height : Nat
  stride : Nat
  format : PixelFormat
  supported : format = .rgb ∨ format = .bgr
  width_pos : 0 < width
  height_pos : 0 < height
  narrow : width ≤ stride
  room : height * stride * bytesPerPixel ≤ sizeBytes
  width_lt : width < 2 ^ 32
  height_lt : height < 2 ^ 32
  size_lt : sizeBytes < 2 ^ 64

structure ClippedRect where
  x : Nat
  y : Nat
  width : Nat
  height : Nat
  deriving DecidableEq

def checkedAdd (base : Word) (size : Nat) : Bool :=
  decide (base.toNat + size < 2 ^ 64) && isCanonical (BitVec.ofNat 64 (base.toNat + size))

namespace FramebufferLayout

/-- `from_info`, on numbers that fit their types, with the direct map as the translation that it
makes. The product of two `u32` does not overflow a `u64`, its multiple may. -/
def fromInfo (info : FramebufferInfo) (physToVirt : Nat → Word) (width_lt : info.width < 2 ^ 32)
    (height_lt : info.height < 2 ^ 32) (size_lt : info.sizeBytes < 2 ^ 64) :
    Except LayoutError FramebufferLayout :=
  if unsupported : ¬ (info.pixelFormat = .rgb ∨ info.pixelFormat = .bgr) then
    .error (.unsupportedPixelFormat info.pixelFormat)
  else if info.physicalAddress = 0 then .error .nullBaseAddress
  else if info.physicalAddress % bytesPerPixel ≠ 0 then
    .error (.misalignedBaseAddress info.physicalAddress)
  else if zero : info.width = 0 ∨ info.height = 0 then
    .error (.zeroDimension info.width info.height)
  else if short : info.stride < info.width then
    .error (.strideLessThanWidth info.stride info.width)
  else if 2 ^ 64 ≤ info.height * info.stride * bytesPerPixel then .error .addressOverflow
  else if small : info.sizeBytes < info.height * info.stride * bytesPerPixel then
    .error (.sizeTooSmall (info.height * info.stride * bytesPerPixel) info.sizeBytes)
  else if !checkedAdd (physToVirt info.physicalAddress) info.sizeBytes then .error .addressOverflow
  else .ok
    { base := physToVirt info.physicalAddress
      sizeBytes := info.sizeBytes
      width := info.width
      height := info.height
      stride := info.stride
      format := info.pixelFormat
      supported := not_not.mp unsupported
      width_pos := by omega
      height_pos := by omega
      narrow := by omega
      room := by omega
      width_lt, height_lt, size_lt }

theorem fromInfo_size {info : FramebufferInfo} {physToVirt : Nat → Word}
    {width_lt : info.width < 2 ^ 32} {height_lt : info.height < 2 ^ 32}
    {size_lt : info.sizeBytes < 2 ^ 64} {l : FramebufferLayout}
    (accepted : fromInfo info physToVirt width_lt height_lt size_lt = .ok l) :
    l.width = info.width ∧ l.height = info.height := by
  unfold fromInfo at accepted
  split_ifs at accepted
  cases accepted
  exact ⟨rfl, rfl⟩

def withBase (l : FramebufferLayout) (base : Word) : Except LayoutError FramebufferLayout :=
  if base = 0 then .error .nullBaseAddress
  else if base.toNat % bytesPerPixel ≠ 0 then .error (.misalignedBaseAddress base.toNat)
  else if !checkedAdd base l.sizeBytes then .error .addressOverflow
  else .ok { l with base }

def pixelOffsetBytes (l : FramebufferLayout) (x y : Nat) : Option Nat :=
  if l.width ≤ x ∨ l.height ≤ y then none else some ((y * l.stride + x) * bytesPerPixel)

def clipRect (l : FramebufferLayout) (x y width height : Nat) : Option ClippedRect :=
  if width = 0 ∨ height = 0 ∨ l.width ≤ x ∨ l.height ≤ y then none
  else some ⟨x, y, min width (l.width - x), min height (l.height - y)⟩

end FramebufferLayout

/-- `to_pixel`. It stops on the formats that no layout has. -/
def Rgb.toPixel (c : Rgb) (format : PixelFormat) : Option UInt32 :=
  let (red, green, blue) := (c.red.toUInt32, c.green.toUInt32, c.blue.toUInt32)
  match format with
  | .bgr => some (red <<< 16 ||| green <<< 8 ||| blue)
  | .rgb => some (blue <<< 16 ||| green <<< 8 ||| red)
  | .bitmask => none
  | .bltOnly => none

/-- `Framebuffer` of the kind `Ram`, with the pixels of its memory. -/
structure Framebuffer where
  layout : FramebufferLayout
  pixels : List UInt32

namespace Framebuffer

/-- The values written to the memory, from a byte on that is the first of a pixel. -/
def writeAt (f : Framebuffer) (offset : Nat) (values : List UInt32) : Option Framebuffer := do
  let pixels ← Slices.write f.pixels (offset / bytesPerPixel) values
  some { f with pixels }

def writePixelRun (f : Framebuffer) (x y : Nat) (pixels : List UInt32) : Option Framebuffer :=
  match f.layout.clipRect x y pixels.length 1 with
  | none => some f
  | some rect => match f.layout.pixelOffsetBytes rect.x rect.y with
    | none => some f
    | some offset => f.writeAt offset (pixels.take (min rect.width pixels.length))

def readPixelRaw (f : Framebuffer) : Raster UInt32 := fun x y =>
  (f.layout.pixelOffsetBytes x y).bind fun offset => f.pixels[offset / bytesPerPixel]?

/-- The loop of `fill_clipped`, over the rows of the rectangle from one on. -/
def fillRows (f : Framebuffer) (x : Nat) (width : Nat) (pixel : UInt32) :
    (y count : Nat) → Option Framebuffer
  | _, 0 => some f
  | y, count + 1 => match f.layout.pixelOffsetBytes x y with
    | none => none
    | some offset => do
      let start := offset / bytesPerPixel
      let pixels ← Slices.fill f.pixels start (start + width) pixel
      fillRows { f with pixels } x width pixel (y + 1) count

/-- `fill_rect` and `fill_clipped`. -/
def fillRect (f : Framebuffer) (x y width height : Nat) (color : Rgb) : Option Framebuffer :=
  match f.layout.clipRect x y width height with
  | none => some f
  | some rect => do
    let pixel ← color.toPixel f.layout.format
    f.fillRows rect.x rect.width pixel rect.y rect.height

def glyphLine (glyph : Font.Glyph) (width : Nat) (front back : UInt32) (row : Nat) : List UInt32 :=
  (List.range width).map fun column => if glyph.isSet column row then front else back

/-- The loop of `draw_glyph_rows` over rows that are cut off, from one on. -/
def drawCutRows (f : Framebuffer) (x y : Nat) (glyph : Font.Glyph) (width : Nat)
    (front back : UInt32) : (row count : Nat) → Option Framebuffer
  | _, 0 => some f
  | row, count + 1 => do
    let f ← f.writePixelRun x (min (y + row) (2 ^ 32 - 1)) (glyphLine glyph width front back row)
    f.drawCutRows x y glyph width front back (row + 1) count

/-- The loop of `draw_glyph_rows` over rows that are all there, from one on. -/
def drawWholeRows (f : Framebuffer) (offset : Nat) (glyph : Font.Glyph) (width : Nat)
    (front back : UInt32) : (row count : Nat) → Option Framebuffer
  | _, 0 => some f
  | row, count + 1 => do
    let strideBytes := f.layout.stride * bytesPerPixel
    let f ← f.writeAt (offset + row * strideBytes) (glyphLine glyph width front back row)
    f.drawWholeRows offset glyph width front back (row + 1) count

/-- `MAX_GLYPH_WIDTH`, in pixels. -/
def maxGlyphWidth : Nat := 32

/-- `draw_glyph` with a background, which is `draw_glyph_rows`. -/
def drawGlyph (f : Framebuffer) (x y : Nat) (glyph : Font.Glyph) (foreground background : Rgb) :
    Option Framebuffer := do
  let width := min glyph.widthPixels maxGlyphWidth
  let front ← foreground.toPixel f.layout.format
  let back ← background.toPixel f.layout.format
  let fits := (f.layout.clipRect x y width glyph.heightPixels).any fun rect =>
    rect.width == width && rect.height == glyph.heightPixels
  if !fits then f.drawCutRows x y glyph width front back 0 glyph.heightPixels
  else match f.layout.pixelOffsetBytes x y with
    | none => some f
    | some offset => f.drawWholeRows offset glyph width front back 0 glyph.heightPixels

def Sound (f : Framebuffer) : Prop := f.pixels.length = f.layout.sizeBytes / bytesPerPixel

variable {f : Framebuffer} {x y width height : Nat}

theorem Sound.room (sound : f.Sound) : f.layout.height * f.layout.stride ≤ f.pixels.length := by
  rw [sound]
  exact (Nat.le_div_iff_mul_le (by decide)).mpr f.layout.room

def pixelOf (l : FramebufferLayout) (c : Rgb) : UInt32 := (c.toPixel l.format).getD 0

theorem toPixel_eq (l : FramebufferLayout) (c : Rgb) : c.toPixel l.format = some (pixelOf l c) := by
  unfold pixelOf Rgb.toPixel
  rcases l.supported with format | format <;> rw [format] <;> rfl

theorem pixelOffsetBytes_eq (l : FramebufferLayout) (inside : x < l.width ∧ y < l.height) :
    l.pixelOffsetBytes x y = some ((y * l.stride + x) * bytesPerPixel) := if_neg (by omega)

theorem readPixelRaw_eq (f : Framebuffer) : f.readPixelRaw =
    Raster.ofRows f.pixels f.layout.width f.layout.height f.layout.stride := by
  funext x y
  unfold readPixelRaw Raster.ofRows
  by_cases inside : x < f.layout.width ∧ y < f.layout.height
  · rw [pixelOffsetBytes_eq _ inside, if_pos inside, Option.bind_some,
      Nat.mul_div_cancel _ (by decide)]
  · rw [FramebufferLayout.pixelOffsetBytes, if_pos (by omega), if_neg inside]
    rfl

theorem Sound.sized (sound : f.Sound) : f.readPixelRaw.Sized f.layout.width f.layout.height := by
  rw [readPixelRaw_eq]
  exact Raster.ofRows_sized f.layout.narrow sound.room

def Shows (r : Option Framebuffer) (l : FramebufferLayout) (p : Raster UInt32) : Prop :=
  ∃ t, r = some t ∧ t.layout = l ∧ t.Sound ∧ t.readPixelRaw = p

theorem shows_self (sound : f.Sound) : Shows (some f) f.layout f.readPixelRaw :=
  ⟨f, rfl, rfl, sound, rfl⟩

theorem Shows.mono {r : Option Framebuffer} {l : FramebufferLayout} {p q : Raster UInt32}
    (shows' : Shows r l p) (same : p = q) : Shows r l q := same ▸ shows'

theorem Shows.bind {r : Option Framebuffer} {l : FramebufferLayout} {p q : Raster UInt32}
    {g : Framebuffer → Option Framebuffer} (first : Shows r l p)
    (second : ∀ t, t.layout = l → t.Sound → t.readPixelRaw = p → Shows (g t) l q) :
    Shows (r.bind g) l q := by
  obtain ⟨t, rfl, layout, sound, picture⟩ := first
  exact second t layout sound picture

theorem shows_pixels (sound : f.Sound) {pixels : List UInt32} {p : Raster UInt32}
    (kept : pixels.length = f.pixels.length)
    (picture : Raster.ofRows pixels f.layout.width f.layout.height f.layout.stride = p) :
    Shows (some { f with pixels }) f.layout p := by
  refine ⟨_, rfl, rfl, kept.trans sound, ?_⟩
  rw [readPixelRaw_eq]
  exact picture

theorem writeAt_shows (sound : f.Sound) (values : List UInt32) (image : Nat → Nat → UInt32)
    {offset : Nat} (place : offset = (y * f.layout.stride + x) * bytesPerPixel)
    (fits : x + values.length ≤ f.layout.width) (row : y < f.layout.height)
    (same : ∀ k, k < values.length → values[k]? = some (image k 0)) :
    Shows (f.writeAt offset values) f.layout
      (f.readPixelRaw.draw x y values.length 1 image) := by
  have narrow := f.layout.narrow
  have index : offset / bytesPerPixel = y * f.layout.stride + x := by
    rw [place, Nat.mul_div_cancel _ (by decide)]
  have bound : offset / bytesPerPixel + values.length ≤ f.pixels.length := by
    have below := Nat.mul_le_mul_right f.layout.stride (show y + 1 ≤ f.layout.height from row)
    have split : (y + 1) * f.layout.stride = y * f.layout.stride + f.layout.stride := by ring
    have room := sound.room
    omega
  obtain ⟨pixels, written⟩ := Slices.write_of_le bound
  rw [writeAt, written, Option.bind_eq_bind, Option.bind_some]
  apply shows_pixels sound (Slices.length_write written)
  rw [index] at written
  rw [readPixelRaw_eq]
  exact Raster.ofRows_write values narrow fits same sound.room written

theorem fillRows_shows (sound : f.Sound) (pixel : UInt32) {count : Nat}
    (wide : x + width ≤ f.layout.width) (pos : 0 < width) (tall : y + count ≤ f.layout.height) :
    Shows (f.fillRows x width pixel y count) f.layout
      (f.readPixelRaw.fill x y width count pixel) := by
  induction count generalizing f y with
  | zero =>
    rw [Raster.fill_flat]
    exact shows_self sound
  | succ count ih =>
    have narrow := f.layout.narrow
    have start : (y * f.layout.stride + x) * bytesPerPixel / bytesPerPixel =
        y * f.layout.stride + x := Nat.mul_div_cancel _ (by decide)
    have bound : y * f.layout.stride + x + width ≤ f.pixels.length := by
      have below := Nat.mul_le_mul_right f.layout.stride (show y + 1 ≤ f.layout.height by omega)
      have split : (y + 1) * f.layout.stride = y * f.layout.stride + f.layout.stride := by ring
      have room := sound.room
      omega
    obtain ⟨pixels, filled⟩ := Slices.fill_of_le
      (show y * f.layout.stride + x ≤ y * f.layout.stride + x + width by omega) bound
    rw [fillRows, pixelOffsetBytes_eq _ ⟨by omega, by omega⟩]
    dsimp only
    rw [start, filled, Option.bind_eq_bind, Option.bind_some]
    have row := Raster.ofRows_fill_span narrow wide sound.room filled
    obtain ⟨t, same, layout, after, picture⟩ :=
      shows_pixels sound (Slices.length_fill filled) row
    rw [Option.some.injEq] at same
    subst same
    have rest := ih (y := y + 1) after wide (by dsimp only; omega)
    apply rest.mono
    rw [picture, add_comm count 1, ← Raster.fill_below, readPixelRaw_eq]

theorem fillRect_shows (sound : f.Sound) (x y width height : Nat) (color : Rgb) :
    Shows (f.fillRect x y width height color) f.layout
      (f.readPixelRaw.fill x y width height (pixelOf f.layout color)) := by
  unfold fillRect FramebufferLayout.clipRect
  by_cases nothing : width = 0 ∨ height = 0 ∨ f.layout.width ≤ x ∨ f.layout.height ≤ y
  · rw [if_pos nothing]
    apply (shows_self sound).mono
    rcases nothing with rfl | rfl | past | past
    · rw [Raster.fill_empty]
    · rw [Raster.fill_flat]
    · rw [sound.sized.fill_past (.inl past)]
    · rw [sound.sized.fill_past (.inr past)]
  · rw [if_neg nothing]
    dsimp only
    rw [toPixel_eq, Option.bind_eq_bind, Option.bind_some]
    apply (fillRows_shows sound _ (by omega) (by omega) (by omega)).mono
    rw [sound.sized.fill_min]

section Glyphs

def glyphImage (glyph : Font.Glyph) (front back : UInt32) (x y : Nat) : UInt32 :=
  if glyph.isSet x y then front else back

theorem glyphLine_length (glyph : Font.Glyph) (width : Nat) (front back : UInt32) (row : Nat) :
    (glyphLine glyph width front back row).length = width := by
  rw [glyphLine, List.length_map, List.length_range]

theorem glyphLine_get {glyph : Font.Glyph} {front back : UInt32} {row k : Nat} (inside : k < width) :
    (glyphLine glyph width front back row)[k]? = some (glyphImage glyph front back k row) := by
  rw [glyphLine, List.getElem?_map, List.getElem?_range inside]
  rfl

theorem drawWholeRows_shows (sound : f.Sound) (glyph : Font.Glyph) (front back : UInt32)
    (row : Nat) {count : Nat} (wide : x + width ≤ f.layout.width) (tall : y + row + count ≤ f.layout.height) :
    Shows (f.drawWholeRows ((y * f.layout.stride + x) * bytesPerPixel) glyph width front back row count)
      f.layout (f.readPixelRaw.draw x (y + row) width count fun i j =>
        glyphImage glyph front back i (row + j)) := by
  induction count generalizing f row with
  | zero =>
    rw [Raster.draw_flat]
    exact shows_self sound
  | succ count ih =>
    have place : (y * f.layout.stride + x) * bytesPerPixel + row * (f.layout.stride * bytesPerPixel) =
        ((y + row) * f.layout.stride + x) * bytesPerPixel := by ring
    have length := glyphLine_length glyph width front back row
    have line := writeAt_shows sound (glyphLine glyph width front back row)
      (fun i j => glyphImage glyph front back i (row + j)) place
      (by omega) (by omega) (fun k inside => glyphLine_get (by omega))
    rw [length] at line
    rw [drawWholeRows, Option.bind_eq_bind]
    apply line.bind
    intro t layout after picture
    have rest := ih after (row + 1) (by rw [layout]; exact wide)
      (by rw [layout]; omega)
    rw [layout, picture] at rest
    apply rest.mono
    rw [add_comm count 1, ← Raster.draw_below, add_assoc]
    simp only [add_assoc]

theorem drawGlyph_shows (sound : f.Sound) {glyph : Font.Glyph} (half : glyph.widthCells = 1)
    (foreground background : Rgb) (wide : x + Font.cellWidth ≤ f.layout.width)
    (tall : y + Font.glyphHeight ≤ f.layout.height) :
    Shows (f.drawGlyph x y glyph foreground background) f.layout
      (f.readPixelRaw.draw x y Font.cellWidth Font.glyphHeight
        (glyphImage glyph (pixelOf f.layout foreground) (pixelOf f.layout background))) := by
  have size : min glyph.widthPixels maxGlyphWidth = Font.cellWidth := by
    rw [Font.Glyph.widthPixels, half]
    rfl
  have clipped : f.layout.clipRect x y Font.cellWidth Font.glyphHeight =
      some ⟨x, y, Font.cellWidth, Font.glyphHeight⟩ := by
    rw [FramebufferLayout.clipRect, if_neg (by unfold Font.cellWidth Font.glyphHeight at *; omega)]
    congr 2 <;> omega
  unfold drawGlyph
  rw [size, toPixel_eq, toPixel_eq]
  simp only [Option.bind_eq_bind, Option.bind_some, Font.Glyph.heightPixels, clipped,
    Option.any_some, BEq.rfl, Bool.and_self, Bool.not_true, Bool.false_eq_true, if_false]
  rw [pixelOffsetBytes_eq _ (by unfold Font.cellWidth Font.glyphHeight at *; omega)]
  have drawn := drawWholeRows_shows sound glyph (pixelOf f.layout foreground)
    (pixelOf f.layout background) 0 wide tall
  simpa using drawn

end Glyphs

end Framebuffer

end Zaytos.Terminal
