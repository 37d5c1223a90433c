import CodeGraph.Text.Runs

/-!
# Combining characters

Characters that extend the grapheme before them, and so show nothing of their own. The halfwidth
sound marks extend one too, but take a place of their own and are not among them.
-/

namespace CodeGraph.Text

def combiningRuns : List (Nat × Nat × Nat) :=
  [(0x300, 0x36F, 1), (0x483, 0x489, 1), (0x591, 0x5BD, 1), (0x5BF, 0x5C1, 2), (0x5C2, 0x5C4, 2),
   (0x5C5, 0x5C7, 2), (0x610, 0x61A, 1), (0x64B, 0x65F, 1), (0x670, 0x670, 1), (0x6D6, 0x6DC, 1),
   (0x6DF, 0x6E4, 1), (0x6E7, 0x6E8, 1), (0x6EA, 0x6ED, 1), (0x711, 0x711, 1), (0x730, 0x74A, 1),
   (0x7A6, 0x7B0, 1), (0x7EB, 0x7F3, 1), (0x7FD, 0x7FD, 1), (0x816, 0x819, 1), (0x81B, 0x823, 1),
   (0x825, 0x827, 1), (0x829, 0x82D, 1), (0x859, 0x85B, 1), (0x897, 0x89F, 1), (0x8CA, 0x8E1, 1),
   (0x8E3, 0x902, 1), (0x93A, 0x93C, 2), (0x941, 0x948, 1), (0x94D, 0x94D, 1), (0x951, 0x957, 1),
   (0x962, 0x963, 1), (0x981, 0x981, 1), (0x9BC, 0x9BE, 2), (0x9C1, 0x9C4, 1), (0x9CD, 0x9CD, 1),
   (0x9D7, 0x9D7, 1), (0x9E2, 0x9E3, 1), (0x9FE, 0x9FE, 1), (0xA01, 0xA02, 1), (0xA3C, 0xA3C, 1),
   (0xA41, 0xA42, 1), (0xA47, 0xA48, 1), (0xA4B, 0xA4D, 1), (0xA51, 0xA51, 1), (0xA70, 0xA71, 1),
   (0xA75, 0xA75, 1), (0xA81, 0xA82, 1), (0xABC, 0xABC, 1), (0xAC1, 0xAC5, 1), (0xAC7, 0xAC8, 1),
   (0xACD, 0xACD, 1), (0xAE2, 0xAE3, 1), (0xAFA, 0xAFF, 1), (0xB01, 0xB01, 1), (0xB3C, 0xB3E, 2),
   (0xB3F, 0xB41, 2), (0xB42, 0xB44, 1), (0xB4D, 0xB4D, 1), (0xB55, 0xB57, 1), (0xB62, 0xB63, 1),
   (0xB82, 0xB82, 1), (0xBBE, 0xBC0, 2), (0xBCD, 0xBCD, 1), (0xBD7, 0xBD7, 1), (0xC00, 0xC00, 1),
   (0xC04, 0xC04, 1), (0xC3C, 0xC3E, 2), (0xC3F, 0xC40, 1), (0xC46, 0xC48, 1), (0xC4A, 0xC4D, 1),
   (0xC55, 0xC56, 1), (0xC62, 0xC63, 1), (0xC81, 0xC81, 1), (0xCBC, 0xCBC, 1), (0xCBF, 0xCC0, 1),
   (0xCC2, 0xCC2, 1), (0xCC6, 0xCC8, 1), (0xCCA, 0xCCD, 1), (0xCD5, 0xCD6, 1), (0xCE2, 0xCE3, 1),
   (0xD00, 0xD01, 1), (0xD3B, 0xD3C, 1), (0xD3E, 0xD3E, 1), (0xD41, 0xD44, 1), (0xD4D, 0xD4D, 1),
   (0xD57, 0xD57, 1), (0xD62, 0xD63, 1), (0xD81, 0xD81, 1), (0xDCA, 0xDCA, 1), (0xDCF, 0xDCF, 1),
   (0xDD2, 0xDD4, 1), (0xDD6, 0xDD6, 1), (0xDDF, 0xDDF, 1), (0xE31, 0xE31, 1), (0xE34, 0xE3A, 1),
   (0xE47, 0xE4E, 1), (0xEB1, 0xEB1, 1), (0xEB4, 0xEBC, 1), (0xEC8, 0xECE, 1), (0xF18, 0xF19, 1),
   (0xF35, 0xF39, 2), (0xF71, 0xF7E, 1), (0xF80, 0xF84, 1), (0xF86, 0xF87, 1), (0xF8D, 0xF97, 1),
   (0xF99, 0xFBC, 1), (0xFC6, 0xFC6, 1), (0x102D, 0x1030, 1), (0x1032, 0x1037, 1),
   (0x1039, 0x103A, 1), (0x103D, 0x103E, 1), (0x1058, 0x1059, 1), (0x105E, 0x1060, 1),
   (0x1071, 0x1074, 1), (0x1082, 0x1082, 1), (0x1085, 0x1086, 1), (0x108D, 0x108D, 1),
   (0x109D, 0x109D, 1), (0x135D, 0x135F, 1), (0x1712, 0x1715, 1), (0x1732, 0x1734, 1),
   (0x1752, 0x1753, 1), (0x1772, 0x1773, 1), (0x17B4, 0x17B5, 1), (0x17B7, 0x17BD, 1),
   (0x17C6, 0x17C6, 1), (0x17C9, 0x17D3, 1), (0x17DD, 0x17DD, 1), (0x180B, 0x180D, 1),
   (0x180F, 0x180F, 1), (0x1885, 0x1886, 1), (0x18A9, 0x18A9, 1), (0x1920, 0x1922, 1),
   (0x1927, 0x1928, 1), (0x1932, 0x1932, 1), (0x1939, 0x193B, 1), (0x1A17, 0x1A18, 1),
   (0x1A1B, 0x1A1B, 1), (0x1A56, 0x1A58, 2), (0x1A59, 0x1A5E, 1), (0x1A60, 0x1A62, 2),
   (0x1A65, 0x1A6C, 1), (0x1A73, 0x1A7C, 1), (0x1A7F, 0x1A7F, 1), (0x1AB0, 0x1ADD, 1),
   (0x1AE0, 0x1AEB, 1), (0x1B00, 0x1B03, 1), (0x1B34, 0x1B3D, 1), (0x1B42, 0x1B44, 1),
   (0x1B6B, 0x1B73, 1), (0x1B80, 0x1B81, 1), (0x1BA2, 0x1BA5, 1), (0x1BA8, 0x1BAD, 1),
   (0x1BE6, 0x1BE8, 2), (0x1BE9, 0x1BE9, 1), (0x1BED, 0x1BEF, 2), (0x1BF0, 0x1BF3, 1),
   (0x1C2C, 0x1C33, 1), (0x1C36, 0x1C37, 1), (0x1CD0, 0x1CD2, 1), (0x1CD4, 0x1CE0, 1),
   (0x1CE2, 0x1CE8, 1), (0x1CED, 0x1CED, 1), (0x1CF4, 0x1CF4, 1), (0x1CF8, 0x1CF9, 1),
   (0x1DC0, 0x1DFF, 1), (0x200C, 0x200C, 1), (0x20D0, 0x20F0, 1), (0x2CEF, 0x2CF1, 1),
   (0x2D7F, 0x2D7F, 1), (0x2DE0, 0x2DFF, 1), (0x302A, 0x302F, 1), (0x3099, 0x309A, 1),
   (0xA66F, 0xA672, 1), (0xA674, 0xA67D, 1), (0xA69E, 0xA69F, 1), (0xA6F0, 0xA6F1, 1),
   (0xA802, 0xA802, 1), (0xA806, 0xA806, 1), (0xA80B, 0xA80B, 1), (0xA825, 0xA826, 1),
   (0xA82C, 0xA82C, 1), (0xA8C4, 0xA8C5, 1), (0xA8E0, 0xA8F1, 1), (0xA8FF, 0xA8FF, 1),
   (0xA926, 0xA92D, 1), (0xA947, 0xA951, 1), (0xA953, 0xA953, 1), (0xA980, 0xA982, 1),
   (0xA9B3, 0xA9B3, 1), (0xA9B6, 0xA9B9, 1), (0xA9BC, 0xA9BD, 1), (0xA9C0, 0xA9C0, 1),
   (0xA9E5, 0xA9E5, 1), (0xAA29, 0xAA2E, 1), (0xAA31, 0xAA32, 1), (0xAA35, 0xAA36, 1),
   (0xAA43, 0xAA43, 1), (0xAA4C, 0xAA4C, 1), (0xAA7C, 0xAA7C, 1), (0xAAB0, 0xAAB2, 2),
   (0xAAB3, 0xAAB4, 1), (0xAAB7, 0xAAB8, 1), (0xAABE, 0xAABF, 1), (0xAAC1, 0xAAC1, 1),
   (0xAAEC, 0xAAED, 1), (0xAAF6, 0xAAF6, 1), (0xABE5, 0xABE5, 1), (0xABE8, 0xABE8, 1),
   (0xABED, 0xABED, 1), (0xFB1E, 0xFB1E, 1), (0xFE00, 0xFE0F, 1), (0xFE20, 0xFE2F, 1),
   (0x101FD, 0x101FD, 1), (0x102E0, 0x102E0, 1), (0x10376, 0x1037A, 1),
   (0x10A01, 0x10A03, 1), (0x10A05, 0x10A06, 1), (0x10A0C, 0x10A0F, 1), (0x10A38, 0x10A3A, 1),
   (0x10A3F, 0x10A3F, 1), (0x10AE5, 0x10AE6, 1), (0x10D24, 0x10D27, 1), (0x10D69, 0x10D6D, 1),
   (0x10EAB, 0x10EAC, 1), (0x10EFA, 0x10EFF, 1), (0x10F46, 0x10F50, 1), (0x10F82, 0x10F85, 1),
   (0x11001, 0x11001, 1), (0x11038, 0x11046, 1), (0x11070, 0x11070, 1), (0x11073, 0x11074, 1),
   (0x1107F, 0x11081, 1), (0x110B3, 0x110B6, 1), (0x110B9, 0x110BA, 1), (0x110C2, 0x110C2, 1),
   (0x11100, 0x11102, 1), (0x11127, 0x1112B, 1), (0x1112D, 0x11134, 1), (0x11173, 0x11173, 1),
   (0x11180, 0x11181, 1), (0x111B6, 0x111BE, 1), (0x111C0, 0x111C0, 1), (0x111C9, 0x111CC, 1),
   (0x111CF, 0x111CF, 1), (0x1122F, 0x11231, 1), (0x11234, 0x11237, 1), (0x1123E, 0x1123E, 1),
   (0x11241, 0x11241, 1), (0x112DF, 0x112DF, 1), (0x112E3, 0x112EA, 1), (0x11300, 0x11301, 1),
   (0x1133B, 0x1133C, 1), (0x1133E, 0x11340, 2), (0x1134D, 0x1134D, 1), (0x11357, 0x11357, 1),
   (0x11366, 0x1136C, 1), (0x11370, 0x11374, 1), (0x113B8, 0x113B8, 1), (0x113BB, 0x113C0, 1),
   (0x113C2, 0x113C2, 1), (0x113C5, 0x113C7, 2), (0x113C8, 0x113C9, 1), (0x113CE, 0x113D0, 1),
   (0x113D2, 0x113D2, 1), (0x113E1, 0x113E2, 1), (0x11438, 0x1143F, 1), (0x11442, 0x11444, 1),
   (0x11446, 0x11446, 1), (0x1145E, 0x1145E, 1), (0x114B0, 0x114B0, 1), (0x114B3, 0x114B8, 1),
   (0x114BA, 0x114BA, 1), (0x114BD, 0x114BF, 2), (0x114C0, 0x114C2, 2), (0x114C3, 0x114C3, 1),
   (0x115AF, 0x115AF, 1), (0x115B2, 0x115B5, 1), (0x115BC, 0x115BD, 1), (0x115BF, 0x115C0, 1),
   (0x115DC, 0x115DD, 1), (0x11633, 0x1163A, 1), (0x1163D, 0x1163F, 2), (0x11640, 0x11640, 1),
   (0x116AB, 0x116AD, 2), (0x116B0, 0x116B7, 1), (0x1171D, 0x1171F, 2), (0x11722, 0x11725, 1),
   (0x11727, 0x1172B, 1), (0x1182F, 0x11837, 1), (0x11839, 0x1183A, 1), (0x11930, 0x11930, 1),
   (0x1193B, 0x1193E, 1), (0x11943, 0x11943, 1), (0x119D4, 0x119D7, 1), (0x119DA, 0x119DB, 1),
   (0x119E0, 0x119E0, 1), (0x11A01, 0x11A0A, 1), (0x11A33, 0x11A38, 1), (0x11A3B, 0x11A3E, 1),
   (0x11A47, 0x11A47, 1), (0x11A51, 0x11A56, 1), (0x11A59, 0x11A5B, 1), (0x11A8A, 0x11A96, 1),
   (0x11A98, 0x11A99, 1), (0x11B60, 0x11B62, 2), (0x11B63, 0x11B64, 1), (0x11B66, 0x11B66, 1),
   (0x11C30, 0x11C36, 1), (0x11C38, 0x11C3D, 1), (0x11C3F, 0x11C3F, 1), (0x11C92, 0x11CA7, 1),
   (0x11CAA, 0x11CB0, 1), (0x11CB2, 0x11CB3, 1), (0x11CB5, 0x11CB6, 1), (0x11D31, 0x11D36, 1),
   (0x11D3A, 0x11D3C, 2), (0x11D3D, 0x11D3F, 2), (0x11D40, 0x11D45, 1), (0x11D47, 0x11D47, 1),
   (0x11D90, 0x11D91, 1), (0x11D95, 0x11D97, 2), (0x11EF3, 0x11EF4, 1), (0x11F00, 0x11F01, 1),
   (0x11F36, 0x11F3A, 1), (0x11F40, 0x11F42, 1), (0x11F5A, 0x11F5A, 1), (0x13440, 0x13440, 1),
   (0x13447, 0x13455, 1), (0x1611E, 0x16129, 1), (0x1612D, 0x1612F, 1), (0x16AF0, 0x16AF4, 1),
   (0x16B30, 0x16B36, 1), (0x16F4F, 0x16F4F, 1), (0x16F8F, 0x16F92, 1), (0x16FE4, 0x16FE4, 1),
   (0x16FF0, 0x16FF1, 1), (0x1BC9D, 0x1BC9E, 1), (0x1CF00, 0x1CF2D, 1), (0x1CF30, 0x1CF46, 1),
   (0x1D165, 0x1D169, 1), (0x1D16D, 0x1D172, 1), (0x1D17B, 0x1D182, 1), (0x1D185, 0x1D18B, 1),
   (0x1D1AA, 0x1D1AD, 1), (0x1D242, 0x1D244, 1), (0x1DA00, 0x1DA36, 1), (0x1DA3B, 0x1DA6C, 1),
   (0x1DA75, 0x1DA75, 1), (0x1DA84, 0x1DA84, 1), (0x1DA9B, 0x1DA9F, 1), (0x1DAA1, 0x1DAAF, 1),
   (0x1E000, 0x1E006, 1), (0x1E008, 0x1E018, 1), (0x1E01B, 0x1E021, 1), (0x1E023, 0x1E024, 1),
   (0x1E026, 0x1E02A, 1), (0x1E08F, 0x1E08F, 1), (0x1E130, 0x1E136, 1), (0x1E2AE, 0x1E2AE, 1),
   (0x1E2EC, 0x1E2EF, 1), (0x1E4EC, 0x1E4EF, 1), (0x1E5EE, 0x1E5EF, 1), (0x1E6E3, 0x1E6E3, 1),
   (0x1E6E6, 0x1E6E6, 1), (0x1E6EE, 0x1E6EF, 1), (0x1E6F5, 0x1E6F5, 1), (0x1E8D0, 0x1E8D6, 1),
   (0x1E944, 0x1E94A, 1), (0xE0020, 0xE007F, 1), (0xE0100, 0xE01EF, 1)]

def isCombining (char : Char) : Bool :=
  inRuns combiningRuns char

end CodeGraph.Text
