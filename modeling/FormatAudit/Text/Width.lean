import FormatAudit.Text.Basic

/-!
Columns on a terminal, by the tables of Unicode 17. Control characters, marks, format characters
that join nothing visible, fillers other than U+115F, the inner and final parts of Hangul syllables
and skin tones take no column, other wide and full-width characters two, and all others one. In a text, U+FE0F
gives some narrow characters a second column, and a character that U+200D joins to the one before
it takes none.
-/
namespace FormatAudit

def wideRanges : List (Nat × Nat) := [
  (0x1100, 0x115f), (0x231a, 0x231b), (0x2329, 0x232a), (0x23e9, 0x23ec), (0x23f0, 0x23f0),
  (0x23f3, 0x23f3), (0x25fd, 0x25fe), (0x2614, 0x2615), (0x2630, 0x2637), (0x2648, 0x2653),
  (0x267f, 0x267f), (0x268a, 0x268f), (0x2693, 0x2693), (0x26a1, 0x26a1), (0x26aa, 0x26ab),
  (0x26bd, 0x26be), (0x26c4, 0x26c5), (0x26ce, 0x26ce), (0x26d4, 0x26d4), (0x26ea, 0x26ea),
  (0x26f2, 0x26f3), (0x26f5, 0x26f5), (0x26fa, 0x26fa), (0x26fd, 0x26fd), (0x2705, 0x2705),
  (0x270a, 0x270b), (0x2728, 0x2728), (0x274c, 0x274c), (0x274e, 0x274e), (0x2753, 0x2755),
  (0x2757, 0x2757), (0x2795, 0x2797), (0x27b0, 0x27b0), (0x27bf, 0x27bf), (0x2b1b, 0x2b1c),
  (0x2b50, 0x2b50), (0x2b55, 0x2b55), (0x2e80, 0x2e99), (0x2e9b, 0x2ef3), (0x2f00, 0x2fd5),
  (0x2ff0, 0x3029), (0x3030, 0x303e), (0x3041, 0x3096), (0x309b, 0x30ff), (0x3105, 0x312f),
  (0x3131, 0x3163), (0x3165, 0x318e), (0x3190, 0x31e5), (0x31ef, 0x321e), (0x3220, 0x3247),
  (0x3250, 0xa48c), (0xa490, 0xa4c6), (0xa960, 0xa97c), (0xac00, 0xd7a3), (0xf900, 0xfaff),
  (0xfe10, 0xfe19), (0xfe30, 0xfe52), (0xfe54, 0xfe66), (0xfe68, 0xfe6b), (0xff01, 0xff60),
  (0xffe0, 0xffe6), (0x16fe0, 0x16fe3), (0x16ff2, 0x16ff6), (0x17000, 0x18cd5), (0x18cff, 0x18d1e),
  (0x18d80, 0x18df2), (0x1aff0, 0x1aff3), (0x1aff5, 0x1affb), (0x1affd, 0x1affe),
  (0x1b000, 0x1b122), (0x1b132, 0x1b132), (0x1b150, 0x1b152), (0x1b155, 0x1b155),
  (0x1b164, 0x1b167), (0x1b170, 0x1b2fb), (0x1d300, 0x1d356), (0x1d360, 0x1d376),
  (0x1f004, 0x1f004), (0x1f0cf, 0x1f0cf), (0x1f18e, 0x1f18e), (0x1f191, 0x1f19a),
  (0x1f200, 0x1f202), (0x1f210, 0x1f23b), (0x1f240, 0x1f248), (0x1f250, 0x1f251),
  (0x1f260, 0x1f265), (0x1f300, 0x1f320), (0x1f32d, 0x1f335), (0x1f337, 0x1f37c),
  (0x1f37e, 0x1f393), (0x1f3a0, 0x1f3ca), (0x1f3cf, 0x1f3d3), (0x1f3e0, 0x1f3f0),
  (0x1f3f4, 0x1f3f4), (0x1f3f8, 0x1f3fa), (0x1f400, 0x1f43e), (0x1f440, 0x1f440),
  (0x1f442, 0x1f4fc), (0x1f4ff, 0x1f53d), (0x1f54b, 0x1f54e), (0x1f550, 0x1f567),
  (0x1f57a, 0x1f57a), (0x1f595, 0x1f596), (0x1f5a4, 0x1f5a4), (0x1f5fb, 0x1f64f),
  (0x1f680, 0x1f6c5), (0x1f6cc, 0x1f6cc), (0x1f6d0, 0x1f6d2), (0x1f6d5, 0x1f6d8),
  (0x1f6dc, 0x1f6df), (0x1f6eb, 0x1f6ec), (0x1f6f4, 0x1f6fc), (0x1f7e0, 0x1f7eb),
  (0x1f7f0, 0x1f7f0), (0x1f90c, 0x1f93a), (0x1f93c, 0x1f945), (0x1f947, 0x1f9ff),
  (0x1fa70, 0x1fa7c), (0x1fa80, 0x1fa8a), (0x1fa8e, 0x1fac6), (0x1fac8, 0x1fac8),
  (0x1facd, 0x1fadc), (0x1fadf, 0x1faea), (0x1faef, 0x1faf8), (0x20000, 0x2fffd),
  (0x30000, 0x3fffd)]

/-- The ranges of characters from U+0080 on that take no column. -/
def zeroWidthRanges : List (Nat × Nat) := [
  (0x80, 0x9f), (0x300, 0x36f), (0x483, 0x489), (0x591, 0x5bd), (0x5bf, 0x5bf), (0x5c1, 0x5c2),
  (0x5c4, 0x5c5), (0x5c7, 0x5c7), (0x610, 0x61a), (0x61c, 0x61c), (0x64b, 0x65f), (0x670, 0x670),
  (0x6d6, 0x6dc), (0x6df, 0x6e4), (0x6e7, 0x6e8), (0x6ea, 0x6ed), (0x711, 0x711), (0x730, 0x74a),
  (0x7a6, 0x7b0), (0x7eb, 0x7f3), (0x7fd, 0x7fd), (0x816, 0x819), (0x81b, 0x823), (0x825, 0x827),
  (0x829, 0x82d), (0x859, 0x85b), (0x897, 0x89f), (0x8ca, 0x8e1), (0x8e3, 0x903), (0x93a, 0x93c),
  (0x93e, 0x94f), (0x951, 0x957), (0x962, 0x963), (0x981, 0x983), (0x9bc, 0x9bc), (0x9be, 0x9c4),
  (0x9c7, 0x9c8), (0x9cb, 0x9cd), (0x9d7, 0x9d7), (0x9e2, 0x9e3), (0x9fe, 0x9fe), (0xa01, 0xa03),
  (0xa3c, 0xa3c), (0xa3e, 0xa42), (0xa47, 0xa48), (0xa4b, 0xa4d), (0xa51, 0xa51), (0xa70, 0xa71),
  (0xa75, 0xa75), (0xa81, 0xa83), (0xabc, 0xabc), (0xabe, 0xac5), (0xac7, 0xac9), (0xacb, 0xacd),
  (0xae2, 0xae3), (0xafa, 0xaff), (0xb01, 0xb03), (0xb3c, 0xb3c), (0xb3e, 0xb44), (0xb47, 0xb48),
  (0xb4b, 0xb4d), (0xb55, 0xb57), (0xb62, 0xb63), (0xb82, 0xb82), (0xbbe, 0xbc2), (0xbc6, 0xbc8),
  (0xbca, 0xbcd), (0xbd7, 0xbd7), (0xc00, 0xc04), (0xc3c, 0xc3c), (0xc3e, 0xc44), (0xc46, 0xc48),
  (0xc4a, 0xc4d), (0xc55, 0xc56), (0xc62, 0xc63), (0xc81, 0xc83), (0xcbc, 0xcbc), (0xcbe, 0xcc4),
  (0xcc6, 0xcc8), (0xcca, 0xccd), (0xcd5, 0xcd6), (0xce2, 0xce3), (0xcf3, 0xcf3), (0xd00, 0xd03),
  (0xd3b, 0xd3c), (0xd3e, 0xd44), (0xd46, 0xd48), (0xd4a, 0xd4d), (0xd57, 0xd57), (0xd62, 0xd63),
  (0xd81, 0xd83), (0xdca, 0xdca), (0xdcf, 0xdd4), (0xdd6, 0xdd6), (0xdd8, 0xddf), (0xdf2, 0xdf3),
  (0xe31, 0xe31), (0xe34, 0xe3a), (0xe47, 0xe4e), (0xeb1, 0xeb1), (0xeb4, 0xebc), (0xec8, 0xece),
  (0xf18, 0xf19), (0xf35, 0xf35), (0xf37, 0xf37), (0xf39, 0xf39), (0xf3e, 0xf3f), (0xf71, 0xf84),
  (0xf86, 0xf87), (0xf8d, 0xf97), (0xf99, 0xfbc), (0xfc6, 0xfc6), (0x102b, 0x103e),
  (0x1056, 0x1059), (0x105e, 0x1060), (0x1062, 0x1064), (0x1067, 0x106d), (0x1071, 0x1074),
  (0x1082, 0x108d), (0x108f, 0x108f), (0x109a, 0x109d), (0x1160, 0x11ff), (0x135d, 0x135f),
  (0x1712, 0x1715), (0x1732, 0x1734), (0x1752, 0x1753), (0x1772, 0x1773), (0x17b4, 0x17d3),
  (0x17dd, 0x17dd), (0x180b, 0x180f), (0x1885, 0x1886), (0x18a9, 0x18a9), (0x1920, 0x192b),
  (0x1930, 0x193b), (0x1a17, 0x1a1b), (0x1a55, 0x1a5e), (0x1a60, 0x1a7c), (0x1a7f, 0x1a7f),
  (0x1ab0, 0x1add), (0x1ae0, 0x1aeb), (0x1b00, 0x1b04), (0x1b34, 0x1b44), (0x1b6b, 0x1b73),
  (0x1b80, 0x1b82), (0x1ba1, 0x1bad), (0x1be6, 0x1bf3), (0x1c24, 0x1c37), (0x1cd0, 0x1cd2),
  (0x1cd4, 0x1ce8), (0x1ced, 0x1ced), (0x1cf4, 0x1cf4), (0x1cf7, 0x1cf9), (0x1dc0, 0x1dff),
  (0x200b, 0x200f), (0x2028, 0x202e), (0x2060, 0x206f), (0x20d0, 0x20f0), (0x2cef, 0x2cf1),
  (0x2d7f, 0x2d7f), (0x2de0, 0x2dff), (0x302a, 0x302f), (0x3099, 0x309a), (0x3164, 0x3164),
  (0xa66f, 0xa672), (0xa674, 0xa67d), (0xa69e, 0xa69f), (0xa6f0, 0xa6f1), (0xa802, 0xa802),
  (0xa806, 0xa806), (0xa80b, 0xa80b), (0xa823, 0xa827), (0xa82c, 0xa82c), (0xa880, 0xa881),
  (0xa8b4, 0xa8c5), (0xa8e0, 0xa8f1), (0xa8ff, 0xa8ff), (0xa926, 0xa92d), (0xa947, 0xa953),
  (0xa980, 0xa983), (0xa9b3, 0xa9c0), (0xa9e5, 0xa9e5), (0xaa29, 0xaa36), (0xaa43, 0xaa43),
  (0xaa4c, 0xaa4d), (0xaa7b, 0xaa7d), (0xaab0, 0xaab0), (0xaab2, 0xaab4), (0xaab7, 0xaab8),
  (0xaabe, 0xaabf), (0xaac1, 0xaac1), (0xaaeb, 0xaaef), (0xaaf5, 0xaaf6), (0xabe3, 0xabea),
  (0xabec, 0xabed), (0xd7b0, 0xd7ff), (0xfb1e, 0xfb1e), (0xfe00, 0xfe0f), (0xfe20, 0xfe2f),
  (0xfeff, 0xfeff), (0xffa0, 0xffa0), (0xfff0, 0xfffb), (0x101fd, 0x101fd), (0x102e0, 0x102e0),
  (0x10376, 0x1037a), (0x10a01, 0x10a03), (0x10a05, 0x10a06), (0x10a0c, 0x10a0f),
  (0x10a38, 0x10a3a), (0x10a3f, 0x10a3f), (0x10ae5, 0x10ae6), (0x10d24, 0x10d27),
  (0x10d69, 0x10d6d), (0x10eab, 0x10eac), (0x10efa, 0x10eff), (0x10f46, 0x10f50),
  (0x10f82, 0x10f85), (0x11000, 0x11002), (0x11038, 0x11046), (0x11070, 0x11070),
  (0x11073, 0x11074), (0x1107f, 0x11082), (0x110b0, 0x110ba), (0x110c2, 0x110c2),
  (0x11100, 0x11102), (0x11127, 0x11134), (0x11145, 0x11146), (0x11173, 0x11173),
  (0x11180, 0x11182), (0x111b3, 0x111c0), (0x111c9, 0x111cc), (0x111ce, 0x111cf),
  (0x1122c, 0x11237), (0x1123e, 0x1123e), (0x11241, 0x11241), (0x112df, 0x112ea),
  (0x11300, 0x11303), (0x1133b, 0x1133c), (0x1133e, 0x11344), (0x11347, 0x11348),
  (0x1134b, 0x1134d), (0x11357, 0x11357), (0x11362, 0x11363), (0x11366, 0x1136c),
  (0x11370, 0x11374), (0x113b8, 0x113c0), (0x113c2, 0x113c2), (0x113c5, 0x113c5),
  (0x113c7, 0x113ca), (0x113cc, 0x113d0), (0x113d2, 0x113d2), (0x113e1, 0x113e2),
  (0x11435, 0x11446), (0x1145e, 0x1145e), (0x114b0, 0x114c3), (0x115af, 0x115b5),
  (0x115b8, 0x115c0), (0x115dc, 0x115dd), (0x11630, 0x11640), (0x116ab, 0x116b7),
  (0x1171d, 0x1172b), (0x1182c, 0x1183a), (0x11930, 0x11935), (0x11937, 0x11938),
  (0x1193b, 0x1193e), (0x11940, 0x11940), (0x11942, 0x11943), (0x119d1, 0x119d7),
  (0x119da, 0x119e0), (0x119e4, 0x119e4), (0x11a01, 0x11a0a), (0x11a33, 0x11a39),
  (0x11a3b, 0x11a3e), (0x11a47, 0x11a47), (0x11a51, 0x11a5b), (0x11a8a, 0x11a99),
  (0x11b60, 0x11b67), (0x11c2f, 0x11c36), (0x11c38, 0x11c3f), (0x11c92, 0x11ca7),
  (0x11ca9, 0x11cb6), (0x11d31, 0x11d36), (0x11d3a, 0x11d3a), (0x11d3c, 0x11d3d),
  (0x11d3f, 0x11d45), (0x11d47, 0x11d47), (0x11d8a, 0x11d8e), (0x11d90, 0x11d91),
  (0x11d93, 0x11d97), (0x11ef3, 0x11ef6), (0x11f00, 0x11f01), (0x11f03, 0x11f03),
  (0x11f34, 0x11f3a), (0x11f3e, 0x11f42), (0x11f5a, 0x11f5a), (0x13430, 0x13440),
  (0x13447, 0x13455), (0x1611e, 0x1612f), (0x16af0, 0x16af4), (0x16b30, 0x16b36),
  (0x16f4f, 0x16f4f), (0x16f51, 0x16f87), (0x16f8f, 0x16f92), (0x16fe4, 0x16fe4),
  (0x16ff0, 0x16ff1), (0x1bc9d, 0x1bc9e), (0x1bca0, 0x1bca3), (0x1cf00, 0x1cf2d),
  (0x1cf30, 0x1cf46), (0x1d165, 0x1d169), (0x1d16d, 0x1d182), (0x1d185, 0x1d18b),
  (0x1d1aa, 0x1d1ad), (0x1d242, 0x1d244), (0x1da00, 0x1da36), (0x1da3b, 0x1da6c),
  (0x1da75, 0x1da75), (0x1da84, 0x1da84), (0x1da9b, 0x1da9f), (0x1daa1, 0x1daaf),
  (0x1e000, 0x1e006), (0x1e008, 0x1e018), (0x1e01b, 0x1e021), (0x1e023, 0x1e024),
  (0x1e026, 0x1e02a), (0x1e08f, 0x1e08f), (0x1e130, 0x1e136), (0x1e2ae, 0x1e2ae),
  (0x1e2ec, 0x1e2ef), (0x1e4ec, 0x1e4ef), (0x1e5ee, 0x1e5ef), (0x1e6e3, 0x1e6e3),
  (0x1e6e6, 0x1e6e6), (0x1e6ee, 0x1e6ef), (0x1e6f5, 0x1e6f5), (0x1e8d0, 0x1e8d6),
  (0x1e944, 0x1e94a), (0x1f3fb, 0x1f3ff), (0xe0000, 0xe0fff)]

/-- The ranges of characters of one column that take two before U+FE0F. -/
def widenedRanges : List (Nat × Nat) := [
  (0x23, 0x23), (0x2a, 0x2a), (0x30, 0x39), (0xa9, 0xa9), (0xae, 0xae), (0x203c, 0x203c),
  (0x2049, 0x2049), (0x2122, 0x2122), (0x2139, 0x2139), (0x2194, 0x2199), (0x21a9, 0x21aa),
  (0x2328, 0x2328), (0x23cf, 0x23cf), (0x23ed, 0x23ef), (0x23f1, 0x23f2), (0x23f8, 0x23fa),
  (0x24c2, 0x24c2), (0x25aa, 0x25ab), (0x25b6, 0x25b6), (0x25c0, 0x25c0), (0x25fb, 0x25fc),
  (0x2600, 0x2604), (0x260e, 0x260e), (0x2611, 0x2611), (0x2618, 0x2618), (0x261d, 0x261d),
  (0x2620, 0x2620), (0x2622, 0x2623), (0x2626, 0x2626), (0x262a, 0x262a), (0x262e, 0x262f),
  (0x2638, 0x263a), (0x2640, 0x2640), (0x2642, 0x2642), (0x265f, 0x2660), (0x2663, 0x2663),
  (0x2665, 0x2666), (0x2668, 0x2668), (0x267b, 0x267b), (0x267e, 0x267e), (0x2692, 0x2692),
  (0x2694, 0x2697), (0x2699, 0x2699), (0x269b, 0x269c), (0x26a0, 0x26a0), (0x26a7, 0x26a7),
  (0x26b0, 0x26b1), (0x26c8, 0x26c8), (0x26cf, 0x26cf), (0x26d1, 0x26d1), (0x26d3, 0x26d3),
  (0x26e9, 0x26e9), (0x26f0, 0x26f1), (0x26f4, 0x26f4), (0x26f7, 0x26f9), (0x2702, 0x2702),
  (0x2708, 0x2709), (0x270c, 0x270d), (0x270f, 0x270f), (0x2712, 0x2712), (0x2714, 0x2714),
  (0x2716, 0x2716), (0x271d, 0x271d), (0x2721, 0x2721), (0x2733, 0x2734), (0x2744, 0x2744),
  (0x2747, 0x2747), (0x2763, 0x2764), (0x27a1, 0x27a1), (0x2934, 0x2935), (0x2b05, 0x2b07),
  (0x1f170, 0x1f171), (0x1f17e, 0x1f17f), (0x1f321, 0x1f321), (0x1f324, 0x1f32c),
  (0x1f336, 0x1f336), (0x1f37d, 0x1f37d), (0x1f396, 0x1f397), (0x1f399, 0x1f39b),
  (0x1f39e, 0x1f39f), (0x1f3cb, 0x1f3ce), (0x1f3d4, 0x1f3df), (0x1f3f3, 0x1f3f3),
  (0x1f3f5, 0x1f3f5), (0x1f3f7, 0x1f3f7), (0x1f43f, 0x1f43f), (0x1f441, 0x1f441),
  (0x1f4fd, 0x1f4fd), (0x1f549, 0x1f54a), (0x1f56f, 0x1f570), (0x1f573, 0x1f579),
  (0x1f587, 0x1f587), (0x1f58a, 0x1f58d), (0x1f590, 0x1f590), (0x1f5a5, 0x1f5a5),
  (0x1f5a8, 0x1f5a8), (0x1f5b1, 0x1f5b2), (0x1f5bc, 0x1f5bc), (0x1f5c2, 0x1f5c4),
  (0x1f5d1, 0x1f5d3), (0x1f5dc, 0x1f5de), (0x1f5e1, 0x1f5e1), (0x1f5e3, 0x1f5e3),
  (0x1f5e8, 0x1f5e8), (0x1f5ef, 0x1f5ef), (0x1f5f3, 0x1f5f3), (0x1f5fa, 0x1f5fa),
  (0x1f6cb, 0x1f6cb), (0x1f6cd, 0x1f6cf), (0x1f6e0, 0x1f6e5), (0x1f6e9, 0x1f6e9),
  (0x1f6f0, 0x1f6f0), (0x1f6f3, 0x1f6f3)]

def liesIn (ranges : List (Nat × Nat)) (c : Char) : Bool :=
  ranges.any fun (low, high) => low ≤ c.toNat && c.toNat ≤ high

def columns (c : Char) : Nat :=
  let n := c.toNat
  if n < 0x20 || n == 0x7f then 0
  else if n < 0x80 then 1
  else if liesIn zeroWidthRanges c then 0
  else if liesIn wideRanges c then 2
  else 1

namespace Text

def emojiForm : Char := '\ufe0f'

def joiner : Char := '\u200d'

/-- The columns of the rest of a text, where `last` is the last character before it that takes a
column and has not been widened. -/
def widthAfter : Option Char → Text → Nat
  | _, [] => 0
  | last, c :: r =>
    if c = joiner then
      match r with
      | [] => 0
      | _ :: r => widthAfter last r
    else if c = emojiForm then
      (if last.any (liesIn widenedRanges) then 1 else 0) + widthAfter none r
    else if columns c = 0 then widthAfter last r
    else columns c + widthAfter (some c) r

def width (t : Text) : Nat :=
  widthAfter none t

structure Cluster where
  text : Text
  width : Nat
  deriving DecidableEq, Repr

def clustersAfter (last : Option Char) (cluster : Cluster) : Text → List Cluster
  | [] => [cluster]
  | c :: r =>
    if c = joiner then
      match r with
      | [] => [⟨cluster.text ++ [c], cluster.width⟩]
      | d :: r => clustersAfter last ⟨cluster.text ++ [c, d], cluster.width⟩ r
    else if c = emojiForm then
      let wider := last.any (liesIn widenedRanges)
      clustersAfter (if wider then none else last)
        ⟨cluster.text ++ [c], cluster.width + if wider then 1 else 0⟩ r
    else if columns c = 0 then clustersAfter last ⟨cluster.text ++ [c], cluster.width⟩ r
    else cluster :: clustersAfter (some c) ⟨[c], columns c⟩ r

def clusters : Text → List Cluster
  | [] => []
  | c :: r =>
    if columns c = 0 then clustersAfter none ⟨[c], 0⟩ r
    else clustersAfter (some c) ⟨[c], columns c⟩ r

end Text

end FormatAudit
