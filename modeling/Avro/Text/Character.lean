import Avro.Text.Basic

/-!
# Classes of characters

A small set of code points is listed as ascending ranges, both ends included. A large one is listed
by the lengths of its runs.
-/

set_option autoImplicit false
set_option maxRecDepth 8000

namespace Avro

namespace Text

def inRanges (ranges : List (Nat × Nat)) (point : Nat) : Bool :=
  ranges.any fun range => range.1 ≤ point && point ≤ range.2

/-- The lengths alternate: so many points are outside, so many after them inside, and so on. -/
def inRuns : List Nat → Nat → Bool
  | outside :: inside :: runs, point =>
    outside ≤ point && (point < outside + inside || inRuns runs (point - outside - inside))
  | _, _ => false

/-!
## Letters and decimal digits

The general categories L and Nd. Below 128 these are the Latin letters and the ten digits; the
tables list the runs of the rest.
-/

def letterRuns : List Nat :=
  [42, 1, 10, 1, 4, 1, 5, 23, 1, 31, 1, 458, 4, 12, 14, 5, 7, 1, 1, 1, 129, 5, 1, 2, 2, 4, 1, 1, 6,
   1, 1, 3, 1, 1, 1, 20, 1, 83, 1, 139, 8, 166, 1, 38, 2, 1, 6, 41, 71, 27, 4, 4, 45, 43, 35, 2, 1,
   99, 1, 1, 15, 2, 7, 2, 10, 3, 2, 1, 16, 1, 1, 30, 29, 89, 11, 1, 24, 33, 9, 2, 4, 1, 5, 22, 4, 1,
   9, 1, 3, 1, 23, 25, 7, 11, 5, 24, 1, 7, 16, 42, 58, 54, 3, 1, 18, 1, 7, 10, 15, 16, 4, 8, 2, 2,
   2, 22, 1, 7, 1, 1, 3, 4, 3, 1, 16, 1, 13, 2, 1, 3, 14, 2, 10, 1, 8, 6, 4, 2, 2, 22, 1, 7, 1, 2,
   1, 2, 1, 2, 31, 4, 1, 1, 19, 3, 16, 9, 1, 3, 1, 22, 1, 7, 1, 2, 1, 5, 3, 1, 18, 1, 15, 2, 23, 1,
   11, 8, 2, 2, 2, 22, 1, 7, 1, 2, 1, 5, 3, 1, 30, 2, 1, 3, 15, 1, 17, 1, 1, 6, 3, 3, 1, 4, 3, 2, 1,
   1, 1, 2, 3, 2, 3, 3, 3, 12, 22, 1, 52, 8, 1, 3, 1, 23, 1, 16, 3, 1, 26, 3, 1, 2, 2, 2, 30, 1, 4,
   8, 1, 3, 1, 23, 1, 10, 1, 5, 3, 1, 30, 3, 1, 2, 15, 2, 17, 9, 1, 3, 1, 41, 2, 1, 16, 1, 5, 3, 8,
   3, 24, 6, 5, 18, 3, 24, 1, 9, 1, 1, 2, 7, 58, 48, 1, 2, 12, 7, 58, 2, 1, 1, 1, 5, 1, 24, 1, 1, 1,
   10, 1, 2, 9, 1, 2, 5, 1, 1, 21, 4, 32, 1, 63, 8, 1, 36, 27, 5, 115, 43, 20, 1, 16, 6, 4, 4, 3, 1,
   3, 2, 7, 3, 4, 13, 12, 1, 17, 38, 1, 1, 5, 1, 2, 43, 1, 333, 1, 4, 2, 7, 1, 1, 1, 4, 2, 41, 1, 4,
   2, 33, 1, 4, 2, 7, 1, 1, 1, 4, 2, 15, 1, 57, 1, 4, 2, 67, 37, 16, 16, 86, 2, 6, 3, 620, 2, 17, 1,
   26, 5, 75, 6, 8, 7, 18, 13, 19, 14, 18, 14, 13, 1, 3, 15, 52, 35, 1, 4, 1, 67, 89, 7, 5, 2, 34,
   1, 1, 5, 70, 10, 31, 49, 30, 2, 5, 11, 44, 4, 26, 54, 23, 9, 53, 82, 1, 93, 47, 17, 8, 54, 30,
   13, 2, 10, 44, 26, 36, 41, 3, 10, 36, 2, 11, 5, 43, 2, 3, 41, 4, 1, 6, 1, 2, 3, 1, 5, 192, 64,
   278, 2, 6, 2, 38, 2, 6, 2, 8, 1, 1, 1, 1, 1, 1, 1, 31, 2, 53, 1, 7, 1, 1, 3, 3, 1, 7, 3, 4, 2, 6,
   4, 13, 5, 3, 1, 7, 116, 1, 13, 1, 16, 13, 101, 1, 4, 1, 2, 10, 1, 1, 3, 5, 6, 1, 1, 1, 1, 1, 1,
   4, 1, 11, 2, 4, 5, 5, 4, 1, 52, 2, 2683, 229, 6, 4, 3, 2, 12, 38, 1, 1, 5, 1, 2, 56, 7, 1, 16,
   23, 9, 7, 1, 7, 1, 7, 1, 7, 1, 7, 1, 7, 1, 7, 1, 7, 80, 1, 469, 2, 42, 5, 5, 2, 4, 86, 6, 3, 1,
   90, 1, 4, 5, 43, 1, 94, 17, 32, 48, 16, 512, 6592, 64, 22157, 67, 46, 2, 269, 3, 16, 10, 2, 20,
   47, 16, 31, 2, 70, 49, 9, 2, 103, 2, 82, 20, 17, 1, 3, 1, 4, 1, 23, 29, 52, 14, 50, 62, 6, 3, 1,
   1, 2, 11, 28, 10, 23, 25, 29, 7, 47, 28, 1, 16, 5, 1, 10, 10, 5, 1, 41, 23, 3, 1, 8, 20, 23, 3,
   1, 3, 50, 1, 1, 3, 2, 2, 5, 2, 1, 1, 1, 24, 3, 2, 11, 7, 3, 12, 6, 2, 6, 2, 6, 9, 7, 1, 7, 1, 43,
   1, 14, 6, 115, 29, 11172, 12, 23, 4, 49, 8452, 366, 2, 106, 38, 7, 12, 5, 5, 1, 1, 10, 1, 13, 1,
   5, 1, 1, 1, 2, 1, 2, 1, 108, 33, 363, 18, 64, 2, 54, 40, 12, 116, 5, 1, 135, 36, 26, 6, 26, 11,
   89, 3, 6, 2, 6, 2, 6, 2, 3, 35, 12, 1, 26, 1, 19, 1, 2, 1, 15, 2, 14, 34, 123, 389, 29, 3, 49,
   47, 32, 13, 20, 1, 8, 6, 38, 10, 30, 2, 36, 4, 8, 48, 158, 18, 36, 4, 36, 4, 40, 8, 52, 12, 11,
   1, 15, 1, 7, 1, 2, 1, 11, 1, 15, 1, 7, 1, 2, 3, 52, 12, 311, 9, 22, 10, 8, 24, 6, 1, 42, 1, 9,
   69, 6, 2, 1, 1, 44, 1, 2, 3, 1, 2, 23, 10, 23, 9, 31, 65, 19, 1, 2, 10, 22, 10, 26, 6, 26, 38,
   56, 6, 2, 64, 1, 15, 4, 1, 3, 1, 29, 42, 29, 3, 29, 35, 8, 1, 28, 27, 54, 10, 22, 10, 19, 13, 18,
   110, 73, 55, 51, 13, 51, 13, 36, 38, 28, 9, 23, 250, 42, 6, 2, 16, 6, 56, 29, 10, 1, 8, 22, 42,
   18, 46, 21, 27, 23, 12, 53, 57, 2, 2, 1, 13, 45, 32, 25, 26, 36, 29, 1, 2, 1, 8, 35, 3, 1, 12,
   48, 14, 4, 21, 1, 1, 1, 35, 18, 1, 25, 19, 2, 63, 7, 1, 1, 1, 4, 1, 15, 1, 10, 7, 47, 38, 8, 2,
   2, 2, 22, 1, 7, 1, 2, 1, 5, 3, 1, 18, 1, 12, 5, 30, 10, 1, 1, 2, 1, 1, 38, 1, 1, 25, 1, 1, 1, 44,
   53, 18, 4, 20, 3, 30, 48, 20, 2, 1, 1, 184, 47, 41, 4, 36, 48, 20, 1, 59, 43, 13, 1, 71, 27, 37,
   7, 185, 44, 116, 64, 31, 8, 2, 1, 2, 8, 1, 2, 1, 24, 15, 1, 1, 1, 94, 8, 2, 39, 16, 1, 1, 1, 28,
   1, 10, 40, 7, 1, 21, 1, 11, 46, 19, 1, 18, 73, 199, 33, 31, 9, 1, 37, 17, 1, 49, 30, 112, 7, 1,
   2, 1, 38, 21, 1, 25, 6, 1, 2, 1, 32, 14, 1, 23, 44, 260, 19, 15, 1, 1, 13, 1, 34, 124, 1, 79,
   922, 230, 196, 2636, 97, 15, 1072, 17, 6, 25, 3995, 5, 583, 6841, 30, 1762, 569, 7, 31, 17, 79,
   17, 30, 18, 48, 16, 4, 31, 21, 5, 19, 432, 45, 211, 64, 32, 25, 2, 25, 44, 75, 5, 1, 66, 13, 64,
   2, 1, 1, 14, 2, 12, 7382, 41, 32, 97, 115, 8701, 4, 1, 7, 1, 2, 1, 291, 15, 1, 29, 3, 2, 1, 14,
   4, 8, 396, 2308, 107, 5, 13, 3, 9, 7, 10, 5990, 85, 1, 71, 1, 2, 2, 1, 2, 2, 2, 4, 1, 12, 1, 1,
   1, 7, 1, 65, 1, 4, 2, 8, 1, 7, 1, 28, 1, 4, 1, 5, 1, 1, 3, 7, 1, 340, 2, 25, 1, 25, 1, 31, 1, 25,
   1, 31, 1, 25, 1, 31, 1, 25, 1, 31, 1, 25, 1, 8, 1844, 31, 6, 6, 261, 62, 146, 45, 10, 7, 16, 1,
   321, 30, 18, 44, 484, 28, 228, 30, 2, 1, 207, 31, 1, 3, 1, 2, 1, 7, 2, 5, 9, 2, 224, 7, 1, 4, 1,
   2, 1, 15, 1, 197, 59, 68, 7, 1, 1204, 4, 1, 27, 1, 2, 1, 1, 2, 1, 1, 10, 1, 4, 1, 1, 1, 1, 6, 1,
   4, 1, 1, 1, 1, 1, 1, 3, 1, 2, 1, 1, 2, 1, 1, 1, 1, 1, 1, 1, 1, 1, 1, 2, 1, 1, 2, 4, 1, 7, 1, 4,
   1, 4, 1, 1, 1, 10, 1, 17, 5, 3, 1, 5, 1, 17, 4420, 42720, 32, 4382, 2, 5774, 2, 7473, 15, 622,
   2466, 542, 1506, 4939, 5, 8490]

def digitRuns : List Nat :=
  [1504, 10, 134, 10, 198, 10, 412, 10, 118, 10, 118, 10, 118, 10, 118, 10, 118, 10, 118, 10, 118,
   10, 118, 10, 118, 10, 96, 10, 118, 10, 70, 10, 278, 10, 70, 10, 1862, 10, 38, 10, 300, 10, 128,
   10, 166, 10, 6, 10, 182, 10, 86, 10, 134, 10, 6, 10, 35270, 10, 678, 10, 38, 10, 198, 10, 22, 10,
   86, 10, 406, 10, 21270, 10, 1414, 10, 2182, 10, 6, 10, 796, 10, 128, 10, 60, 10, 144, 10, 278,
   10, 342, 10, 118, 10, 374, 10, 102, 10, 6, 20, 76, 10, 422, 10, 102, 10, 662, 10, 86, 10, 246,
   10, 70, 10, 54, 10, 358, 10, 16854, 10, 2342, 10, 86, 10, 134, 10, 534, 10, 24438, 10, 2772, 50,
   2368, 10, 422, 10, 502, 10, 247, 10, 853, 10, 4758, 10]

def isLetter (char : Char) : Bool :=
  if char.toNat < 128 then char.isAlpha else inRuns letterRuns (char.toNat - 128)

def isDigit (char : Char) : Bool :=
  if char.toNat < 128 then char.isDigit else inRuns digitRuns (char.toNat - 128)

/-!
## Capital letters

The general category Lu. Below 128 these are the capital Latin letters; the table lists the rest.
-/

/-- Capital letters from 128 on, in runs: how many code points lie between a run and the one before,
how many letters it has, and the step from one to the next. -/
def capitalRuns : List (Nat × Nat × Nat) :=
  [(64, 23, 1), (1, 7, 1), (33, 28, 2), (2, 8, 2), (2, 24, 2), (0, 3, 2), (3, 2, 1), (1, 2, 2),
   (0, 2, 2), (0, 2, 1), (2, 4, 1), (1, 2, 1), (1, 3, 1), (3, 2, 1), (1, 2, 1), (1, 3, 2),
   (0, 2, 2), (2, 2, 2), (0, 2, 2), (0, 2, 1), (1, 2, 2), (0, 1, 1), (3, 1, 1), (7, 1, 1),
   (2, 1, 1), (2, 1, 1), (2, 8, 2), (2, 9, 2), (2, 1, 1), (2, 2, 2), (0, 2, 1), (1, 29, 2),
   (7, 2, 1), (1, 2, 1), (2, 2, 2), (0, 3, 1), (1, 4, 2), (289, 2, 2), (3, 1, 1), (8, 1, 1),
   (6, 2, 2), (0, 2, 1), (1, 2, 2), (0, 2, 2), (0, 16, 1), (1, 9, 1), (35, 1, 1), (2, 3, 1),
   (3, 12, 2), (5, 1, 1), (2, 2, 2), (0, 1, 1), (2, 51, 1), (48, 17, 2), (9, 28, 2), (0, 7, 2),
   (2, 48, 2), (2, 38, 1), (2889, 38, 1), (1, 1, 1), (5, 1, 1), (722, 86, 1), (2195, 1, 1),
   (6, 43, 1), (2, 3, 1), (320, 75, 2), (9, 49, 2), (9, 8, 1), (8, 6, 1), (10, 8, 1), (8, 8, 1),
   (8, 6, 1), (11, 4, 2), (8, 8, 1), (72, 4, 1), (12, 4, 1), (12, 4, 1), (12, 5, 1), (11, 4, 1),
   (262, 1, 1), (4, 1, 1), (3, 3, 1), (2, 3, 1), (2, 1, 1), (3, 5, 1), (6, 4, 2), (0, 3, 1),
   (2, 4, 1), (10, 2, 1), (5, 1, 1), (61, 1, 1), (2684, 48, 1), (48, 2, 2), (0, 2, 1), (2, 4, 2),
   (0, 3, 1), (1, 1, 1), (2, 1, 1), (8, 3, 1), (1, 49, 2), (8, 2, 2), (4, 1, 1), (31053, 23, 2),
   (19, 14, 2), (135, 7, 2), (3, 31, 2), (10, 3, 2), (0, 5, 2), (4, 2, 2), (2, 2, 2), (3, 11, 2),
   (0, 4, 1), (1, 5, 1), (1, 8, 2), (0, 3, 1), (1, 2, 2), (0, 9, 2), (24, 1, 1), (22315, 26, 1),
   (1221, 40, 1), (136, 36, 1), (156, 11, 1), (1, 15, 1), (1, 7, 1), (1, 2, 1), (1770, 51, 1),
   (157, 22, 1), (2874, 32, 1), (21888, 32, 1), (64, 25, 1), (25927, 26, 1), (26, 26, 1),
   (26, 26, 1), (26, 2, 2), (0, 1, 1), (2, 1, 1), (2, 2, 1), (2, 4, 1), (1, 8, 1), (26, 26, 1),
   (26, 2, 1), (1, 4, 1), (2, 8, 1), (1, 7, 1), (27, 2, 1), (1, 4, 1), (1, 5, 1), (1, 1, 1),
   (3, 7, 1), (27, 26, 1), (26, 26, 1), (26, 26, 1), (26, 26, 1), (26, 26, 1), (26, 26, 1),
   (30, 25, 1), (33, 25, 1), (33, 25, 1), (33, 25, 1), (33, 25, 1), (33, 1, 1), (4405, 34, 1)]

def inStepRuns : List (Nat × Nat × Nat) → Nat → Bool
  | (gap, count, step) :: runs, point =>
    let width := gap + (count - 1) * step + 1
    if width ≤ point then inStepRuns runs (point - width)
    else gap ≤ point && (point - gap) % step == 0
  | [], _ => false

def isCapital (char : Char) : Bool :=
  if char.toNat < 128 then char.isUpper else inStepRuns capitalRuns (char.toNat - 128)

/-!
## Upper case

The upper-case form of a single character, where it has one that is a single character too.
-/

/-- Characters from 128 on that have an upper-case form, in runs: how many code points lie between a
run and the one before, how many characters it has, the step from one to the next, and the distance
to their upper-case forms. -/
def upperRuns : List (Nat × Nat × Nat × Int) :=
  [(53, 1, 1, 743), (42, 23, 1, -32), (1, 7, 1, -32), (0, 1, 1, 121), (1, 24, 2, -1),
   (1, 1, 1, -232), (1, 3, 2, -1), (2, 8, 2, -1), (2, 23, 2, -1), (2, 3, 2, -1), (0, 1, 1, -300),
   (0, 1, 1, 195), (2, 2, 2, -1), (2, 1, 1, -1), (3, 1, 1, -1), (5, 1, 1, -1), (2, 1, 1, 97),
   (3, 1, 1, -1), (0, 1, 1, 163), (0, 1, 1, 42561), (2, 1, 1, 130), (2, 3, 2, -1), (2, 1, 1, -1),
   (4, 1, 1, -1), (2, 1, 1, -1), (3, 2, 2, -1), (2, 1, 1, -1), (3, 1, 1, -1), (1, 1, 1, 56),
   (5, 1, 1, -1), (0, 1, 1, -2), (1, 1, 1, -1), (0, 1, 1, -2), (1, 1, 1, -1), (0, 1, 1, -2),
   (1, 8, 2, -1), (0, 1, 1, -79), (1, 9, 2, -1), (2, 1, 1, -1), (0, 1, 1, -2), (1, 1, 1, -1),
   (3, 20, 2, -1), (3, 9, 2, -1), (8, 1, 1, -1), (2, 2, 1, 10815), (1, 1, 1, -1), (4, 5, 2, -1),
   (0, 1, 1, 10783), (0, 1, 1, 10780), (0, 1, 1, 10782), (0, 1, 1, -210), (0, 1, 1, -206),
   (1, 2, 1, -205), (1, 1, 1, -202), (1, 1, 1, -203), (0, 1, 1, 42319), (3, 1, 1, -205),
   (0, 1, 1, 42315), (1, 1, 1, -207), (0, 1, 1, 42343), (0, 1, 1, 42280), (0, 1, 1, 42308),
   (1, 1, 1, -209), (0, 1, 1, -211), (0, 1, 1, 42308), (0, 1, 1, 10743), (0, 1, 1, 42305),
   (2, 1, 1, -211), (1, 1, 1, 10749), (0, 1, 1, -213), (2, 1, 1, -214), (7, 1, 1, 10727),
   (2, 1, 1, -218), (1, 1, 1, 42307), (0, 1, 1, -218), (3, 1, 1, 42282), (0, 1, 1, -218),
   (0, 1, 1, -69), (0, 2, 1, -217), (0, 1, 1, -71), (5, 1, 1, -219), (10, 1, 1, 42261),
   (0, 1, 1, 42258), (166, 1, 1, 84), (43, 2, 2, -1), (3, 1, 1, -1), (3, 3, 1, 130),
   (46, 1, 1, -38), (0, 3, 1, -37), (1, 17, 1, -32), (0, 1, 1, -31), (0, 9, 1, -32), (0, 1, 1, -64),
   (0, 2, 1, -63), (1, 1, 1, -62), (0, 1, 1, -57), (3, 1, 1, -47), (0, 1, 1, -54), (0, 1, 1, -8),
   (1, 12, 2, -1), (0, 1, 1, -86), (0, 1, 1, -80), (0, 1, 1, 7), (0, 1, 1, -116), (1, 1, 1, -96),
   (2, 1, 1, -1), (2, 1, 1, -1), (52, 32, 1, -32), (0, 16, 1, -80), (1, 17, 2, -1), (9, 27, 2, -1),
   (2, 7, 2, -1), (0, 1, 1, -15), (1, 48, 2, -1), (49, 38, 1, -48), (2889, 43, 1, 3008),
   (2, 3, 1, 3008), (760, 6, 1, -8), (2178, 1, 1, -6254), (0, 1, 1, -6253), (0, 1, 1, -6244),
   (0, 2, 1, -6242), (0, 1, 1, -6243), (0, 1, 1, -6236), (0, 1, 1, -6181), (0, 1, 1, 35266),
   (1, 1, 1, -1), (238, 1, 1, 35332), (3, 1, 1, 3814), (16, 1, 1, 35384), (114, 75, 2, -1),
   (5, 1, 1, -59), (5, 48, 2, -1), (0, 8, 1, 8), (8, 6, 1, 8), (10, 8, 1, 8), (8, 8, 1, 8),
   (8, 6, 1, 8), (11, 4, 2, 8), (8, 8, 1, 8), (8, 2, 1, 74), (0, 4, 1, 86), (0, 2, 1, 100),
   (0, 2, 1, 128), (0, 2, 1, 112), (0, 2, 1, 126), (2, 8, 1, 8), (8, 8, 1, 8), (8, 8, 1, 8),
   (8, 2, 1, 8), (1, 1, 1, 9), (10, 1, 1, -7205), (4, 1, 1, 9), (12, 2, 1, 8), (14, 2, 1, 8),
   (3, 1, 1, 7), (13, 1, 1, 9), (346, 1, 1, -28), (33, 16, 1, -16), (4, 1, 1, -1),
   (843, 26, 1, -26), (1862, 48, 1, -48), (1, 1, 1, -1), (3, 1, 1, -10795), (0, 1, 1, -10792),
   (1, 3, 2, -1), (6, 1, 1, -1), (2, 1, 1, -1), (10, 50, 2, -1), (8, 2, 2, -1), (4, 1, 1, -1),
   (12, 38, 1, -7264), (1, 1, 1, -7264), (5, 1, 1, -7264), (30995, 23, 2, -1), (19, 14, 2, -1),
   (135, 7, 2, -1), (3, 31, 2, -1), (10, 2, 2, -1), (2, 5, 2, -1), (4, 1, 1, -1), (4, 2, 2, -1),
   (0, 1, 1, 48), (2, 10, 2, -1), (11, 8, 2, -1), (4, 2, 2, -1), (2, 8, 2, -1), (26, 1, 1, -1),
   (860, 1, 1, -928), (28, 80, 1, -38864), (21377, 26, 1, -32), (1229, 40, 1, -40),
   (136, 36, 1, -40), (155, 11, 1, -39), (1, 15, 1, -39), (1, 7, 1, -39), (1, 2, 1, -39),
   (1795, 51, 1, -64), (125, 22, 1, -32), (2874, 32, 1, -32), (21888, 32, 1, -32), (59, 25, 1, -27),
   (31310, 34, 1, -34)]

def upperDistance : List (Nat × Nat × Nat × Int) → Nat → Int
  | (gap, count, step, distance) :: runs, point =>
    let width := gap + (count - 1) * step + 1
    if width ≤ point then upperDistance runs (point - width)
    else if gap ≤ point && (point - gap) % step == 0 then distance
    else 0
  | [], _ => 0

def toUpper (char : Char) : Char :=
  if char.toNat < 128 then char.toUpper
  else Char.ofNat (char.toNat + upperDistance upperRuns (char.toNat - 128)).toNat

/-- The lower-case form of a character where that is one of the letters `a` to `z`; other characters
stay. -/
def toLower (char : Char) : Char :=
  if char == '\u0130' then 'i' else if char == '\u212A' then 'k' else char.toLower

/-!
## Printable characters

Letters, marks, numbers, punctuation, symbols and the ordinary space are shown as they are;
every other character is shown by an escape.
-/

def printableRuns : List Nat :=
  [33, 12, 1, 714, 2, 6, 4, 7, 1, 1, 1, 20, 1, 397, 1, 38, 2, 50, 2, 3, 1, 55, 8, 27, 4, 6, 17, 22,
   1, 192, 1, 48, 2, 59, 2, 101, 14, 59, 2, 49, 2, 15, 1, 28, 2, 1, 1, 11, 5, 32, 7, 75, 1, 161, 1,
   8, 2, 2, 2, 22, 1, 7, 1, 1, 3, 4, 2, 9, 2, 2, 2, 4, 8, 1, 4, 2, 1, 5, 2, 25, 2, 3, 1, 6, 4, 2, 2,
   22, 1, 7, 1, 2, 1, 2, 1, 2, 2, 1, 1, 5, 4, 2, 2, 3, 3, 1, 7, 4, 1, 1, 7, 17, 10, 3, 1, 9, 1, 3,
   1, 22, 1, 7, 1, 2, 1, 5, 2, 10, 1, 3, 1, 3, 2, 1, 15, 4, 2, 12, 7, 7, 1, 3, 1, 8, 2, 2, 2, 22, 1,
   7, 1, 2, 1, 5, 2, 9, 2, 2, 2, 3, 7, 3, 4, 2, 1, 5, 2, 18, 10, 2, 1, 6, 3, 3, 1, 4, 3, 2, 1, 1, 1,
   2, 3, 2, 3, 3, 3, 12, 4, 5, 3, 3, 1, 4, 2, 1, 6, 1, 14, 21, 5, 13, 1, 3, 1, 23, 1, 16, 2, 9, 1,
   3, 1, 4, 7, 2, 1, 3, 1, 2, 2, 4, 2, 10, 7, 22, 1, 3, 1, 23, 1, 10, 1, 5, 2, 9, 1, 3, 1, 4, 7, 2,
   5, 3, 1, 4, 2, 10, 1, 3, 12, 13, 1, 3, 1, 51, 1, 3, 1, 6, 4, 16, 2, 26, 1, 3, 1, 18, 3, 24, 1, 9,
   1, 1, 2, 7, 3, 1, 4, 6, 1, 1, 1, 8, 6, 10, 2, 3, 12, 58, 4, 29, 37, 2, 1, 1, 1, 5, 1, 24, 1, 1,
   1, 23, 2, 5, 1, 1, 1, 7, 1, 10, 2, 4, 32, 72, 1, 36, 4, 39, 1, 36, 1, 15, 1, 13, 37, 198, 1, 1,
   5, 1, 2, 377, 1, 4, 2, 7, 1, 1, 1, 4, 2, 41, 1, 4, 2, 33, 1, 4, 2, 7, 1, 1, 1, 4, 2, 15, 1, 57,
   1, 4, 2, 67, 2, 32, 3, 26, 6, 86, 2, 6, 2, 640, 1, 28, 3, 89, 7, 22, 9, 24, 9, 20, 12, 13, 1, 3,
   1, 2, 12, 94, 2, 10, 6, 10, 6, 14, 1, 11, 6, 89, 7, 43, 5, 70, 10, 31, 1, 12, 4, 12, 4, 1, 3, 42,
   2, 5, 11, 44, 4, 26, 6, 11, 3, 62, 2, 65, 1, 29, 2, 11, 6, 10, 6, 14, 2, 46, 2, 12, 20, 77, 1,
   166, 8, 60, 3, 15, 3, 62, 5, 43, 2, 11, 8, 43, 5, 534, 2, 6, 2, 38, 2, 6, 2, 8, 1, 1, 1, 1, 1, 1,
   1, 31, 2, 53, 1, 15, 1, 14, 2, 6, 1, 19, 2, 3, 1, 9, 17, 24, 8, 47, 17, 2, 2, 27, 1, 13, 3, 34,
   14, 33, 15, 140, 4, 666, 22, 11, 21, 1812, 2, 382, 5, 45, 1, 1, 5, 1, 2, 56, 7, 2, 14, 24, 9, 7,
   1, 7, 1, 7, 1, 7, 1, 7, 1, 7, 1, 7, 1, 7, 1, 126, 34, 26, 1, 89, 12, 214, 26, 16, 1, 63, 1, 86,
   2, 103, 5, 43, 1, 94, 1, 86, 9, 48, 1, 29293, 3, 55, 9, 348, 20, 184, 8, 221, 20, 60, 3, 10, 6,
   56, 8, 70, 8, 12, 6, 116, 11, 30, 3, 78, 1, 11, 4, 33, 1, 55, 9, 14, 2, 10, 2, 103, 24, 28, 10,
   6, 2, 6, 2, 6, 9, 7, 1, 7, 1, 60, 4, 126, 2, 10, 6, 11172, 12, 23, 4, 49, 8452, 366, 2, 106, 38,
   7, 12, 5, 5, 26, 1, 5, 1, 1, 1, 2, 1, 2, 1, 650, 32, 42, 6, 51, 1, 19, 1, 4, 4, 5, 1, 135, 4,
   190, 3, 6, 2, 6, 2, 6, 2, 3, 3, 7, 1, 7, 13, 2, 2, 12, 1, 26, 1, 19, 1, 2, 1, 15, 2, 14, 34, 123,
   5, 3, 4, 45, 3, 88, 1, 13, 3, 1, 47, 46, 130, 29, 3, 49, 15, 28, 4, 36, 9, 30, 5, 43, 5, 30, 1,
   37, 4, 14, 42, 158, 2, 10, 6, 36, 4, 36, 4, 40, 8, 52, 11, 12, 1, 15, 1, 7, 1, 2, 1, 11, 1, 15,
   1, 7, 1, 2, 3, 52, 12, 311, 9, 22, 10, 8, 24, 6, 1, 42, 1, 9, 69, 6, 2, 1, 1, 44, 1, 2, 3, 1, 2,
   23, 1, 72, 8, 9, 48, 19, 1, 2, 5, 33, 3, 27, 5, 27, 38, 56, 4, 20, 2, 50, 1, 2, 5, 8, 1, 3, 1,
   29, 2, 3, 4, 10, 7, 9, 7, 64, 32, 39, 4, 12, 9, 54, 3, 29, 2, 27, 5, 26, 7, 4, 12, 7, 80, 73, 55,
   51, 13, 51, 7, 46, 8, 10, 6, 38, 3, 29, 8, 2, 208, 31, 1, 42, 1, 3, 2, 2, 16, 6, 8, 9, 33, 46, 8,
   42, 22, 26, 38, 28, 20, 23, 9, 78, 4, 36, 9, 62, 1, 5, 13, 25, 7, 10, 6, 53, 1, 18, 8, 39, 9, 96,
   1, 20, 11, 18, 1, 47, 62, 7, 1, 1, 1, 4, 1, 15, 1, 11, 6, 59, 5, 10, 6, 4, 1, 8, 2, 2, 2, 22, 1,
   7, 1, 2, 1, 5, 1, 10, 2, 2, 2, 3, 2, 1, 6, 1, 5, 7, 2, 7, 3, 5, 11, 10, 1, 1, 2, 1, 1, 38, 1, 10,
   1, 1, 2, 1, 1, 4, 1, 10, 1, 2, 8, 2, 29, 92, 1, 5, 30, 72, 8, 10, 166, 54, 2, 38, 34, 69, 11, 10,
   6, 13, 19, 58, 6, 10, 6, 20, 28, 27, 2, 15, 4, 23, 185, 60, 100, 83, 12, 8, 2, 1, 2, 8, 1, 2, 1,
   30, 1, 2, 2, 12, 9, 10, 70, 8, 2, 46, 2, 11, 27, 72, 8, 83, 13, 73, 7, 10, 86, 8, 88, 34, 14, 10,
   6, 9, 1, 45, 1, 14, 10, 29, 3, 32, 2, 22, 1, 14, 73, 7, 1, 2, 1, 44, 3, 1, 1, 2, 1, 9, 8, 10, 6,
   6, 1, 2, 1, 37, 1, 2, 1, 6, 7, 10, 6, 44, 4, 10, 246, 25, 7, 17, 1, 41, 3, 29, 85, 1, 15, 50, 13,
   923, 102, 111, 1, 5, 11, 196, 2636, 99, 13, 1072, 16, 22, 10, 3995, 5, 583, 6841, 58, 1734, 569,
   7, 31, 1, 10, 4, 81, 1, 10, 6, 30, 2, 6, 10, 70, 10, 10, 1, 7, 1, 21, 5, 19, 432, 58, 198, 91, 5,
   25, 2, 25, 44, 75, 4, 57, 7, 17, 64, 5, 11, 7, 9, 7382, 41, 32, 97, 115, 8701, 4, 1, 7, 1, 2, 1,
   291, 15, 1, 29, 3, 2, 1, 14, 4, 8, 396, 2308, 107, 5, 13, 3, 9, 7, 10, 2, 4, 3936, 253, 3, 436,
   6, 23, 15, 17, 15, 46, 2, 23, 9, 116, 60, 246, 10, 39, 2, 74, 8, 112, 21, 70, 122, 20, 12, 20,
   12, 87, 9, 25, 135, 85, 1, 71, 1, 2, 2, 1, 2, 2, 2, 4, 1, 12, 1, 1, 1, 7, 1, 65, 1, 4, 2, 8, 1,
   7, 1, 28, 1, 4, 1, 5, 1, 1, 3, 7, 1, 340, 2, 292, 2, 702, 15, 5, 1, 15, 1104, 31, 6, 6, 213, 7,
   1, 17, 2, 7, 1, 2, 1, 5, 5, 62, 33, 1, 112, 45, 3, 14, 2, 10, 4, 2, 320, 31, 17, 58, 5, 1, 464,
   42, 214, 43, 4, 1, 192, 31, 1, 22, 8, 2, 224, 7, 1, 4, 1, 2, 1, 15, 1, 197, 2, 16, 41, 76, 4, 10,
   4, 2, 785, 68, 76, 61, 194, 4, 1, 27, 1, 2, 1, 1, 2, 1, 1, 10, 1, 4, 1, 1, 1, 1, 6, 1, 4, 1, 1,
   1, 1, 1, 1, 3, 1, 2, 1, 1, 2, 1, 1, 1, 1, 1, 1, 1, 1, 1, 1, 2, 1, 1, 2, 4, 1, 7, 1, 4, 1, 4, 1,
   1, 1, 10, 1, 17, 5, 3, 1, 5, 1, 17, 52, 2, 270, 44, 4, 100, 12, 15, 2, 15, 1, 15, 1, 37, 10, 174,
   56, 29, 13, 44, 4, 9, 7, 2, 14, 6, 154, 985, 3, 17, 3, 13, 3, 218, 6, 12, 4, 1, 15, 12, 4, 56, 8,
   10, 6, 40, 8, 30, 2, 12, 4, 2, 14, 9, 39, 344, 8, 14, 2, 13, 3, 11, 3, 57, 1, 1, 4, 16, 2, 12, 4,
   10, 7, 147, 1, 103, 1029, 42720, 32, 4382, 2, 5774, 2, 7473, 15, 622, 2466, 542, 1506, 4939, 5,
   8490, 707718, 240]

def isPrintable (char : Char) : Bool :=
  if char.toNat < 128 then 32 ≤ char.toNat && char.toNat < 127
  else inRuns printableRuns (char.toNat - 128)

/-!
## White space

The characters with the property White_Space, and trimming by them.
-/

end Text

def Text.blankRanges : List (Nat × Nat) :=
  [(0x9, 0xD), (0x20, 0x20), (0x85, 0x85), (0xA0, 0xA0), (0x1680, 0x1680), (0x2000, 0x200A),
   (0x2028, 0x2029), (0x202F, 0x202F), (0x205F, 0x205F), (0x3000, 0x3000)]

def Cell.isBlank : Cell → Bool
  | .scalar char => Text.inRanges Text.blankRanges char.toNat
  | .stray _ => false

namespace Text

def trimStart (text : Text) : Text := text.dropWhile Cell.isBlank

def trimEnd (text : Text) : Text := (text.reverse.dropWhile Cell.isBlank).reverse

def trim (text : Text) : Text := trimEnd (trimStart text)

end Text

end Avro
