import Zaytos.Terminal.Text

set_option autoImplicit false

/-! The font of the console (`graphics/font`): a table of code points with the cells that each
takes, and sixteen rows of dots for each. -/
namespace Zaytos.Terminal.Font

def glyphIndex : List (Nat × Nat) := [
  (0x0020, 1), (0x0021, 1), (0x0022, 1), (0x0023, 1), (0x0024, 1), (0x0025, 1), (0x0026, 1),
  (0x0027, 1), (0x0028, 1), (0x0029, 1), (0x002A, 1), (0x002B, 1), (0x002C, 1), (0x002D, 1),
  (0x002E, 1), (0x002F, 1), (0x0030, 1), (0x0031, 1), (0x0032, 1), (0x0033, 1), (0x0034, 1),
  (0x0035, 1), (0x0036, 1), (0x0037, 1), (0x0038, 1), (0x0039, 1), (0x003A, 1), (0x003B, 1),
  (0x003C, 1), (0x003D, 1), (0x003E, 1), (0x003F, 1), (0x0040, 1), (0x0041, 1), (0x0042, 1),
  (0x0043, 1), (0x0044, 1), (0x0045, 1), (0x0046, 1), (0x0047, 1), (0x0048, 1), (0x0049, 1),
  (0x004A, 1), (0x004B, 1), (0x004C, 1), (0x004D, 1), (0x004E, 1), (0x004F, 1), (0x0050, 1),
  (0x0051, 1), (0x0052, 1), (0x0053, 1), (0x0054, 1), (0x0055, 1), (0x0056, 1), (0x0057, 1),
  (0x0058, 1), (0x0059, 1), (0x005A, 1), (0x005B, 1), (0x005C, 1), (0x005D, 1), (0x005E, 1),
  (0x005F, 1), (0x0060, 1), (0x0061, 1), (0x0062, 1), (0x0063, 1), (0x0064, 1), (0x0065, 1),
  (0x0066, 1), (0x0067, 1), (0x0068, 1), (0x0069, 1), (0x006A, 1), (0x006B, 1), (0x006C, 1),
  (0x006D, 1), (0x006E, 1), (0x006F, 1), (0x0070, 1), (0x0071, 1), (0x0072, 1), (0x0073, 1),
  (0x0074, 1), (0x0075, 1), (0x0076, 1), (0x0077, 1), (0x0078, 1), (0x0079, 1), (0x007A, 1),
  (0x007B, 1), (0x007C, 1), (0x007D, 1), (0x007E, 1), (0xFFFD, 1)]

def glyphRows : List Nat := [
  0, 0, 0, 0, 0, 0, 0, 0,
  0, 0, 0, 0, 0, 0, 0, 0,
  0, 0, 0, 0, 0x0800, 0x0800, 0x0800, 0x0800,
  0x0800, 0x0800, 0x0800, 0, 0x0800, 0x0800, 0, 0,
  0, 0, 0x2200, 0x2200, 0x2200, 0x2200, 0, 0,
  0, 0, 0, 0, 0, 0, 0, 0,
  0, 0, 0, 0, 0x1200, 0x1200, 0x1200, 0x7E00,
  0x2400, 0x2400, 0x7E00, 0x4800, 0x4800, 0x4800, 0, 0,
  0, 0, 0, 0, 0x0800, 0x3E00, 0x4900, 0x4800,
  0x3800, 0x0E00, 0x0900, 0x4900, 0x3E00, 0x0800, 0, 0,
  0, 0, 0, 0, 0x3100, 0x4A00, 0x4A00, 0x3400,
  0x0800, 0x0800, 0x1600, 0x2900, 0x2900, 0x4600, 0, 0,
  0, 0, 0, 0, 0x1C00, 0x2200, 0x2200, 0x1400,
  0x1800, 0x2900, 0x4500, 0x4200, 0x4600, 0x3900, 0, 0,
  0, 0, 0x0800, 0x0800, 0x0800, 0x0800, 0, 0,
  0, 0, 0, 0, 0, 0, 0, 0,
  0, 0, 0, 0x0400, 0x0800, 0x0800, 0x1000, 0x1000,
  0x1000, 0x1000, 0x1000, 0x1000, 0x0800, 0x0800, 0x0400, 0,
  0, 0, 0, 0x2000, 0x1000, 0x1000, 0x0800, 0x0800,
  0x0800, 0x0800, 0x0800, 0x0800, 0x1000, 0x1000, 0x2000, 0,
  0, 0, 0, 0, 0, 0, 0x0800, 0x4900,
  0x2A00, 0x1C00, 0x2A00, 0x4900, 0x0800, 0, 0, 0,
  0, 0, 0, 0, 0, 0, 0x0800, 0x0800,
  0x0800, 0x7F00, 0x0800, 0x0800, 0x0800, 0, 0, 0,
  0, 0, 0, 0, 0, 0, 0, 0,
  0, 0, 0, 0, 0x1800, 0x0800, 0x0800, 0x1000,
  0, 0, 0, 0, 0, 0, 0, 0,
  0, 0x3C00, 0, 0, 0, 0, 0, 0,
  0, 0, 0, 0, 0, 0, 0, 0,
  0, 0, 0, 0, 0x1800, 0x1800, 0, 0,
  0, 0, 0, 0, 0x0200, 0x0200, 0x0400, 0x0800,
  0x0800, 0x1000, 0x1000, 0x2000, 0x4000, 0x4000, 0, 0,
  0, 0, 0, 0, 0x1800, 0x2400, 0x4200, 0x4600,
  0x4A00, 0x5200, 0x6200, 0x4200, 0x2400, 0x1800, 0, 0,
  0, 0, 0, 0, 0x0800, 0x1800, 0x2800, 0x0800,
  0x0800, 0x0800, 0x0800, 0x0800, 0x0800, 0x3E00, 0, 0,
  0, 0, 0, 0, 0x3C00, 0x4200, 0x4200, 0x0200,
  0x0C00, 0x1000, 0x2000, 0x4000, 0x4000, 0x7E00, 0, 0,
  0, 0, 0, 0, 0x3C00, 0x4200, 0x4200, 0x0200,
  0x1C00, 0x0200, 0x0200, 0x4200, 0x4200, 0x3C00, 0, 0,
  0, 0, 0, 0, 0x0400, 0x0C00, 0x1400, 0x2400,
  0x4400, 0x4400, 0x7E00, 0x0400, 0x0400, 0x0400, 0, 0,
  0, 0, 0, 0, 0x7E00, 0x4000, 0x4000, 0x4000,
  0x7C00, 0x0200, 0x0200, 0x0200, 0x4200, 0x3C00, 0, 0,
  0, 0, 0, 0, 0x1C00, 0x2000, 0x4000, 0x4000,
  0x7C00, 0x4200, 0x4200, 0x4200, 0x4200, 0x3C00, 0, 0,
  0, 0, 0, 0, 0x7E00, 0x0200, 0x0200, 0x0400,
  0x0400, 0x0400, 0x0800, 0x0800, 0x0800, 0x0800, 0, 0,
  0, 0, 0, 0, 0x3C00, 0x4200, 0x4200, 0x4200,
  0x3C00, 0x4200, 0x4200, 0x4200, 0x4200, 0x3C00, 0, 0,
  0, 0, 0, 0, 0x3C00, 0x4200, 0x4200, 0x4200,
  0x3E00, 0x0200, 0x0200, 0x0200, 0x0400, 0x3800, 0, 0,
  0, 0, 0, 0, 0, 0, 0x1800, 0x1800,
  0, 0, 0, 0x1800, 0x1800, 0, 0, 0,
  0, 0, 0, 0, 0, 0, 0x1800, 0x1800,
  0, 0, 0, 0x1800, 0x0800, 0x0800, 0x1000, 0,
  0, 0, 0, 0, 0, 0x0200, 0x0400, 0x0800,
  0x1000, 0x2000, 0x1000, 0x0800, 0x0400, 0x0200, 0, 0,
  0, 0, 0, 0, 0, 0, 0, 0x7E00,
  0, 0, 0, 0x7E00, 0, 0, 0, 0,
  0, 0, 0, 0, 0, 0x4000, 0x2000, 0x1000,
  0x0800, 0x0400, 0x0800, 0x1000, 0x2000, 0x4000, 0, 0,
  0, 0, 0, 0, 0x3C00, 0x4200, 0x4200, 0x0200,
  0x0400, 0x0800, 0x0800, 0, 0x0800, 0x0800, 0, 0,
  0, 0, 0, 0, 0x1C00, 0x2200, 0x4A00, 0x5600,
  0x5200, 0x5200, 0x5200, 0x4E00, 0x2000, 0x1E00, 0, 0,
  0, 0, 0, 0, 0x1800, 0x2400, 0x2400, 0x4200,
  0x4200, 0x7E00, 0x4200, 0x4200, 0x4200, 0x4200, 0, 0,
  0, 0, 0, 0, 0x7C00, 0x4200, 0x4200, 0x4200,
  0x7C00, 0x4200, 0x4200, 0x4200, 0x4200, 0x7C00, 0, 0,
  0, 0, 0, 0, 0x3C00, 0x4200, 0x4200, 0x4000,
  0x4000, 0x4000, 0x4000, 0x4200, 0x4200, 0x3C00, 0, 0,
  0, 0, 0, 0, 0x7800, 0x4400, 0x4200, 0x4200,
  0x4200, 0x4200, 0x4200, 0x4200, 0x4400, 0x7800, 0, 0,
  0, 0, 0, 0, 0x7E00, 0x4000, 0x4000, 0x4000,
  0x7C00, 0x4000, 0x4000, 0x4000, 0x4000, 0x7E00, 0, 0,
  0, 0, 0, 0, 0x7E00, 0x4000, 0x4000, 0x4000,
  0x7C00, 0x4000, 0x4000, 0x4000, 0x4000, 0x4000, 0, 0,
  0, 0, 0, 0, 0x3C00, 0x4200, 0x4200, 0x4000,
  0x4000, 0x4E00, 0x4200, 0x4200, 0x4600, 0x3A00, 0, 0,
  0, 0, 0, 0, 0x4200, 0x4200, 0x4200, 0x4200,
  0x7E00, 0x4200, 0x4200, 0x4200, 0x4200, 0x4200, 0, 0,
  0, 0, 0, 0, 0x3E00, 0x0800, 0x0800, 0x0800,
  0x0800, 0x0800, 0x0800, 0x0800, 0x0800, 0x3E00, 0, 0,
  0, 0, 0, 0, 0x1F00, 0x0400, 0x0400, 0x0400,
  0x0400, 0x0400, 0x0400, 0x4400, 0x4400, 0x3800, 0, 0,
  0, 0, 0, 0, 0x4200, 0x4400, 0x4800, 0x5000,
  0x6000, 0x6000, 0x5000, 0x4800, 0x4400, 0x4200, 0, 0,
  0, 0, 0, 0, 0x4000, 0x4000, 0x4000, 0x4000,
  0x4000, 0x4000, 0x4000, 0x4000, 0x4000, 0x7E00, 0, 0,
  0, 0, 0, 0, 0x4200, 0x4200, 0x6600, 0x6600,
  0x5A00, 0x5A00, 0x4200, 0x4200, 0x4200, 0x4200, 0, 0,
  0, 0, 0, 0, 0x4200, 0x6200, 0x6200, 0x5200,
  0x5200, 0x4A00, 0x4A00, 0x4600, 0x4600, 0x4200, 0, 0,
  0, 0, 0, 0, 0x3C00, 0x4200, 0x4200, 0x4200,
  0x4200, 0x4200, 0x4200, 0x4200, 0x4200, 0x3C00, 0, 0,
  0, 0, 0, 0, 0x7C00, 0x4200, 0x4200, 0x4200,
  0x7C00, 0x4000, 0x4000, 0x4000, 0x4000, 0x4000, 0, 0,
  0, 0, 0, 0, 0x3C00, 0x4200, 0x4200, 0x4200,
  0x4200, 0x4200, 0x4200, 0x5A00, 0x6600, 0x3C00, 0x0300, 0,
  0, 0, 0, 0, 0x7C00, 0x4200, 0x4200, 0x4200,
  0x7C00, 0x4800, 0x4400, 0x4400, 0x4200, 0x4200, 0, 0,
  0, 0, 0, 0, 0x3C00, 0x4200, 0x4200, 0x4000,
  0x3000, 0x0C00, 0x0200, 0x4200, 0x4200, 0x3C00, 0, 0,
  0, 0, 0, 0, 0x7F00, 0x0800, 0x0800, 0x0800,
  0x0800, 0x0800, 0x0800, 0x0800, 0x0800, 0x0800, 0, 0,
  0, 0, 0, 0, 0x4200, 0x4200, 0x4200, 0x4200,
  0x4200, 0x4200, 0x4200, 0x4200, 0x4200, 0x3C00, 0, 0,
  0, 0, 0, 0, 0x4100, 0x4100, 0x4100, 0x2200,
  0x2200, 0x2200, 0x1400, 0x1400, 0x0800, 0x0800, 0, 0,
  0, 0, 0, 0, 0x4200, 0x4200, 0x4200, 0x4200,
  0x5A00, 0x5A00, 0x6600, 0x6600, 0x4200, 0x4200, 0, 0,
  0, 0, 0, 0, 0x4200, 0x4200, 0x2400, 0x2400,
  0x1800, 0x1800, 0x2400, 0x2400, 0x4200, 0x4200, 0, 0,
  0, 0, 0, 0, 0x4100, 0x4100, 0x2200, 0x2200,
  0x1400, 0x0800, 0x0800, 0x0800, 0x0800, 0x0800, 0, 0,
  0, 0, 0, 0, 0x7E00, 0x0200, 0x0200, 0x0400,
  0x0800, 0x1000, 0x2000, 0x4000, 0x4000, 0x7E00, 0, 0,
  0, 0, 0, 0x0E00, 0x0800, 0x0800, 0x0800, 0x0800,
  0x0800, 0x0800, 0x0800, 0x0800, 0x0800, 0x0800, 0x0E00, 0,
  0, 0, 0, 0, 0x4000, 0x4000, 0x2000, 0x1000,
  0x1000, 0x0800, 0x0800, 0x0400, 0x0200, 0x0200, 0, 0,
  0, 0, 0, 0x7000, 0x1000, 0x1000, 0x1000, 0x1000,
  0x1000, 0x1000, 0x1000, 0x1000, 0x1000, 0x1000, 0x7000, 0,
  0, 0, 0x1800, 0x2400, 0x4200, 0, 0, 0,
  0, 0, 0, 0, 0, 0, 0, 0,
  0, 0, 0, 0, 0, 0, 0, 0,
  0, 0, 0, 0, 0, 0, 0x7F00, 0,
  0, 0x2000, 0x1000, 0x0800, 0, 0, 0, 0,
  0, 0, 0, 0, 0, 0, 0, 0,
  0, 0, 0, 0, 0, 0, 0x3C00, 0x4200,
  0x0200, 0x3E00, 0x4200, 0x4200, 0x4600, 0x3A00, 0, 0,
  0, 0, 0, 0x4000, 0x4000, 0x4000, 0x5C00, 0x6200,
  0x4200, 0x4200, 0x4200, 0x4200, 0x6200, 0x5C00, 0, 0,
  0, 0, 0, 0, 0, 0, 0x3C00, 0x4200,
  0x4000, 0x4000, 0x4000, 0x4000, 0x4200, 0x3C00, 0, 0,
  0, 0, 0, 0x0200, 0x0200, 0x0200, 0x3A00, 0x4600,
  0x4200, 0x4200, 0x4200, 0x4200, 0x4600, 0x3A00, 0, 0,
  0, 0, 0, 0, 0, 0, 0x3C00, 0x4200,
  0x4200, 0x7E00, 0x4000, 0x4000, 0x4200, 0x3C00, 0, 0,
  0, 0, 0, 0x0C00, 0x1000, 0x1000, 0x1000, 0x7C00,
  0x1000, 0x1000, 0x1000, 0x1000, 0x1000, 0x1000, 0, 0,
  0, 0, 0, 0, 0, 0x0200, 0x3A00, 0x4400,
  0x4400, 0x4400, 0x3800, 0x2000, 0x3C00, 0x4200, 0x4200, 0x3C00,
  0, 0, 0, 0x4000, 0x4000, 0x4000, 0x5C00, 0x6200,
  0x4200, 0x4200, 0x4200, 0x4200, 0x4200, 0x4200, 0, 0,
  0, 0, 0, 0x0800, 0x0800, 0, 0x1800, 0x0800,
  0x0800, 0x0800, 0x0800, 0x0800, 0x0800, 0x3E00, 0, 0,
  0, 0, 0, 0x0400, 0x0400, 0, 0x0C00, 0x0400,
  0x0400, 0x0400, 0x0400, 0x0400, 0x0400, 0x0400, 0x4800, 0x3000,
  0, 0, 0, 0x4000, 0x4000, 0x4000, 0x4400, 0x4800,
  0x5000, 0x6000, 0x5000, 0x4800, 0x4400, 0x4200, 0, 0,
  0, 0, 0, 0x1800, 0x0800, 0x0800, 0x0800, 0x0800,
  0x0800, 0x0800, 0x0800, 0x0800, 0x0800, 0x3E00, 0, 0,
  0, 0, 0, 0, 0, 0, 0x7600, 0x4900,
  0x4900, 0x4900, 0x4900, 0x4900, 0x4900, 0x4900, 0, 0,
  0, 0, 0, 0, 0, 0, 0x5C00, 0x6200,
  0x4200, 0x4200, 0x4200, 0x4200, 0x4200, 0x4200, 0, 0,
  0, 0, 0, 0, 0, 0, 0x3C00, 0x4200,
  0x4200, 0x4200, 0x4200, 0x4200, 0x4200, 0x3C00, 0, 0,
  0, 0, 0, 0, 0, 0, 0x5C00, 0x6200,
  0x4200, 0x4200, 0x4200, 0x4200, 0x6200, 0x5C00, 0x4000, 0x4000,
  0, 0, 0, 0, 0, 0, 0x3A00, 0x4600,
  0x4200, 0x4200, 0x4200, 0x4200, 0x4600, 0x3A00, 0x0200, 0x0200,
  0, 0, 0, 0, 0, 0, 0x5C00, 0x6200,
  0x4200, 0x4000, 0x4000, 0x4000, 0x4000, 0x4000, 0, 0,
  0, 0, 0, 0, 0, 0, 0x3C00, 0x4200,
  0x4000, 0x3000, 0x0C00, 0x0200, 0x4200, 0x3C00, 0, 0,
  0, 0, 0, 0, 0x1000, 0x1000, 0x1000, 0x7C00,
  0x1000, 0x1000, 0x1000, 0x1000, 0x1000, 0x0C00, 0, 0,
  0, 0, 0, 0, 0, 0, 0x4200, 0x4200,
  0x4200, 0x4200, 0x4200, 0x4200, 0x4600, 0x3A00, 0, 0,
  0, 0, 0, 0, 0, 0, 0x4200, 0x4200,
  0x4200, 0x2400, 0x2400, 0x2400, 0x1800, 0x1800, 0, 0,
  0, 0, 0, 0, 0, 0, 0x4100, 0x4900,
  0x4900, 0x4900, 0x4900, 0x4900, 0x4900, 0x3600, 0, 0,
  0, 0, 0, 0, 0, 0, 0x4200, 0x4200,
  0x2400, 0x1800, 0x1800, 0x2400, 0x4200, 0x4200, 0, 0,
  0, 0, 0, 0, 0, 0, 0x4200, 0x4200,
  0x4200, 0x4200, 0x4200, 0x2600, 0x1A00, 0x0200, 0x0200, 0x3C00,
  0, 0, 0, 0, 0, 0, 0x7E00, 0x0200,
  0x0400, 0x0800, 0x1000, 0x2000, 0x4000, 0x7E00, 0, 0,
  0, 0, 0, 0x0C00, 0x1000, 0x1000, 0x0800, 0x0800,
  0x1000, 0x2000, 0x1000, 0x0800, 0x0800, 0x1000, 0x1000, 0x0C00,
  0, 0, 0x0800, 0x0800, 0x0800, 0x0800, 0x0800, 0x0800,
  0x0800, 0x0800, 0x0800, 0x0800, 0x0800, 0x0800, 0x0800, 0x0800,
  0, 0, 0, 0x3000, 0x0800, 0x0800, 0x1000, 0x1000,
  0x0800, 0x0400, 0x0800, 0x1000, 0x1000, 0x0800, 0x0800, 0x3000,
  0, 0, 0, 0x3100, 0x4900, 0x4600, 0, 0,
  0, 0, 0, 0, 0, 0, 0, 0,
  0, 0, 0, 0x7E00, 0x6600, 0x5A00, 0x5A00, 0x7A00,
  0x7600, 0x7600, 0x7E00, 0x7600, 0x7600, 0x7E00, 0, 0]

abbrev glyphHeight : Nat := 16

abbrev cellWidth : Nat := 8

def replacementCharacter : Char := Char.ofNat 0xFFFD

structure Glyph where
  rows : List Nat
  widthCells : Nat
  deriving DecidableEq

namespace Glyph

def widthPixels (g : Glyph) : Nat := cellWidth * g.widthCells

def heightPixels (_ : Glyph) : Nat := glyphHeight

def isSet (g : Glyph) (x y : Nat) : Bool :=
  if g.widthPixels ≤ x ∨ glyphHeight ≤ y then false
  else match g.rows[y]? with
    | none => false
    | some row => row &&& (0x8000 >>> x) != 0

end Glyph

/-- `lookup`. The binary search finds the place of the code point: there is one at most. -/
def lookup (c : Char) : Option Glyph :=
  match glyphIndex.findIdx? fun entry => entry.1 == c.toNat with
  | none => none
  | some position => do
    let (_, widthCells) ← glyphIndex[position]?
    let start := position * glyphHeight
    if start + glyphHeight ≤ glyphRows.length then
      some ⟨(glyphRows.drop start).take glyphHeight, widthCells⟩
    else none

def glyph (c : Char) : Glyph :=
  match lookup c with
  | some found => found
  | none => match lookup replacementCharacter with
    | some found => found
    | none => ⟨List.replicate glyphHeight 0, 1⟩

theorem glyphIndex_width : ∀ entry ∈ glyphIndex, entry.2 = 1 := by decide

theorem lookup_width {c : Char} {g : Glyph} (found : lookup c = some g) : g.widthCells = 1 := by
  unfold lookup at found
  split at found
  · cases found
  next position _ =>
    cases entry : glyphIndex[position]? with
    | none =>
      rw [entry] at found
      cases found
    | some pair =>
      rw [entry, Option.bind_eq_bind, Option.bind_some] at found
      dsimp only at found
      split at found
      · cases found
        exact glyphIndex_width pair (List.mem_of_getElem? entry)
      · cases found

theorem glyph_width (c : Char) : (glyph c).widthCells = 1 := by
  unfold glyph
  split
  next found => exact lookup_width found
  · split
    next found => exact lookup_width found
    · rfl

theorem glyphIndex_narrow : ∀ entry ∈ glyphIndex, isWide entry.1 = false := by decide

theorem widthCells_of_lookup {c : Char} (present : (lookup c).isSome = true) : widthCells c = 1 := by
  unfold lookup at present
  split at present
  · cases present
  next position found =>
    obtain ⟨bound, same, -⟩ := List.findIdx?_eq_some_iff_getElem.mp found
    have narrow := glyphIndex_narrow _ (List.getElem_mem bound)
    rw [eq_of_beq same] at narrow
    rw [widthCells, narrow]
    rfl

theorem glyph_space : glyph ' ' = ⟨List.replicate glyphHeight 0, 1⟩ := by
  have blank : lookup ' ' = some ⟨List.replicate glyphHeight 0, 1⟩ := by decide +kernel
  rw [glyph, blank]

theorem isSet_space (x y : Nat) : (glyph ' ').isSet x y = false := by
  rw [glyph_space, Glyph.isSet]
  split
  · rfl
  · split
    · rfl
    next row there =>
      rw [List.eq_of_mem_replicate (List.mem_of_getElem? there), Nat.zero_and]
      rfl

end Zaytos.Terminal.Font
