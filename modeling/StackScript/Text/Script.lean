import StackScript.Text.Property

/-!
# Scripts

The script of every character, as the sorted list of the codes at which it changes, with the number
of the script from there on, and the names that scripts go by.

Main statements: `scriptNamed?_latin` (a short and a long name mean one script).
-/
namespace StackScript.Text

set_option maxRecDepth 20000 in
/-- The codes at which the script changes. -/
def scriptStarts : CodeSet := ⟨#[
  0, 65, 91, 97, 123, 170, 171, 186, 187, 192, 215, 216, 247, 248, 697, 736, 741, 746, 748, 768,
  880, 884, 885, 888, 890, 894, 895, 896, 900, 901, 902, 903, 904, 907, 908, 909, 910, 930, 931,
  994, 1008, 1024, 1157, 1159, 1328, 1329, 1367, 1369, 1419, 1421, 1424, 1425, 1480, 1488, 1515,
  1519, 1525, 1536, 1541, 1542, 1548, 1549, 1563, 1564, 1567, 1568, 1600, 1601, 1611, 1622, 1648,
  1649, 1757, 1758, 1792, 1806, 1807, 1867, 1869, 1872, 1920, 1970, 1984, 2043, 2045, 2048, 2094,
  2096, 2111, 2112, 2140, 2142, 2143, 2144, 2155, 2160, 2191, 2192, 2194, 2200, 2274, 2275, 2304,
  2385, 2389, 2404, 2406, 2432, 2436, 2437, 2445, 2447, 2449, 2451, 2473, 2474, 2481, 2482, 2483,
  2486, 2490, 2492, 2501, 2503, 2505, 2507, 2511, 2519, 2520, 2524, 2526, 2527, 2532, 2534, 2559,
  2561, 2564, 2565, 2571, 2575, 2577, 2579, 2601, 2602, 2609, 2610, 2612, 2613, 2615, 2616, 2618,
  2620, 2621, 2622, 2627, 2631, 2633, 2635, 2638, 2641, 2642, 2649, 2653, 2654, 2655, 2662, 2679,
  2689, 2692, 2693, 2702, 2703, 2706, 2707, 2729, 2730, 2737, 2738, 2740, 2741, 2746, 2748, 2758,
  2759, 2762, 2763, 2766, 2768, 2769, 2784, 2788, 2790, 2802, 2809, 2816, 2817, 2820, 2821, 2829,
  2831, 2833, 2835, 2857, 2858, 2865, 2866, 2868, 2869, 2874, 2876, 2885, 2887, 2889, 2891, 2894,
  2901, 2904, 2908, 2910, 2911, 2916, 2918, 2936, 2946, 2948, 2949, 2955, 2958, 2961, 2962, 2966,
  2969, 2971, 2972, 2973, 2974, 2976, 2979, 2981, 2984, 2987, 2990, 3002, 3006, 3011, 3014, 3017,
  3018, 3022, 3024, 3025, 3031, 3032, 3046, 3067, 3072, 3085, 3086, 3089, 3090, 3113, 3114, 3130,
  3132, 3141, 3142, 3145, 3146, 3150, 3157, 3159, 3160, 3163, 3165, 3166, 3168, 3172, 3174, 3184,
  3191, 3200, 3213, 3214, 3217, 3218, 3241, 3242, 3252, 3253, 3258, 3260, 3269, 3270, 3273, 3274,
  3278, 3285, 3287, 3293, 3295, 3296, 3300, 3302, 3312, 3313, 3316, 3328, 3341, 3342, 3345, 3346,
  3397, 3398, 3401, 3402, 3408, 3412, 3428, 3430, 3456, 3457, 3460, 3461, 3479, 3482, 3506, 3507,
  3516, 3517, 3518, 3520, 3527, 3530, 3531, 3535, 3541, 3542, 3543, 3544, 3552, 3558, 3568, 3570,
  3573, 3585, 3643, 3647, 3648, 3676, 3713, 3715, 3716, 3717, 3718, 3723, 3724, 3748, 3749, 3750,
  3751, 3774, 3776, 3781, 3782, 3783, 3784, 3791, 3792, 3802, 3804, 3808, 3840, 3912, 3913, 3949,
  3953, 3992, 3993, 4029, 4030, 4045, 4046, 4053, 4057, 4059, 4096, 4256, 4294, 4295, 4296, 4301,
  4302, 4304, 4347, 4348, 4352, 4608, 4681, 4682, 4686, 4688, 4695, 4696, 4697, 4698, 4702, 4704,
  4745, 4746, 4750, 4752, 4785, 4786, 4790, 4792, 4799, 4800, 4801, 4802, 4806, 4808, 4823, 4824,
  4881, 4882, 4886, 4888, 4955, 4957, 4989, 4992, 5018, 5024, 5110, 5112, 5118, 5120, 5760, 5789,
  5792, 5867, 5870, 5881, 5888, 5910, 5919, 5920, 5941, 5943, 5952, 5972, 5984, 5997, 5998, 6001,
  6002, 6004, 6016, 6110, 6112, 6122, 6128, 6138, 6144, 6146, 6148, 6149, 6150, 6170, 6176, 6265,
  6272, 6315, 6320, 6390, 6400, 6431, 6432, 6444, 6448, 6460, 6464, 6465, 6468, 6480, 6510, 6512,
  6517, 6528, 6572, 6576, 6602, 6608, 6619, 6622, 6624, 6656, 6684, 6686, 6688, 6751, 6752, 6781,
  6783, 6794, 6800, 6810, 6816, 6830, 6832, 6863, 6912, 6989, 6992, 7039, 7040, 7104, 7156, 7164,
  7168, 7224, 7227, 7242, 7245, 7248, 7296, 7305, 7312, 7355, 7357, 7360, 7368, 7376, 7379, 7380,
  7393, 7394, 7401, 7405, 7406, 7412, 7413, 7416, 7418, 7419, 7424, 7462, 7467, 7468, 7517, 7522,
  7526, 7531, 7544, 7545, 7615, 7616, 7680, 7936, 7958, 7960, 7966, 7968, 8006, 8008, 8014, 8016,
  8024, 8025, 8026, 8027, 8028, 8029, 8030, 8031, 8062, 8064, 8117, 8118, 8133, 8134, 8148, 8150,
  8156, 8157, 8176, 8178, 8181, 8182, 8191, 8192, 8204, 8206, 8293, 8294, 8305, 8306, 8308, 8319,
  8320, 8335, 8336, 8349, 8352, 8385, 8400, 8433, 8448, 8486, 8487, 8490, 8492, 8498, 8499, 8526,
  8527, 8544, 8585, 8588, 8592, 9255, 9280, 9291, 9312, 10240, 10496, 11124, 11126, 11158, 11159,
  11264, 11360, 11392, 11508, 11513, 11520, 11558, 11559, 11560, 11565, 11566, 11568, 11624, 11631,
  11633, 11647, 11648, 11671, 11680, 11687, 11688, 11695, 11696, 11703, 11704, 11711, 11712, 11719,
  11720, 11727, 11728, 11735, 11736, 11743, 11744, 11776, 11870, 11904, 11930, 11931, 12020, 12032,
  12246, 12272, 12284, 12288, 12293, 12294, 12295, 12296, 12321, 12330, 12334, 12336, 12344, 12348,
  12352, 12353, 12439, 12441, 12443, 12445, 12448, 12449, 12539, 12541, 12544, 12549, 12592, 12593,
  12687, 12688, 12704, 12736, 12772, 12784, 12800, 12831, 12832, 12896, 12927, 13008, 13055, 13056,
  13144, 13312, 19904, 19968, 40960, 42125, 42128, 42183, 42192, 42240, 42540, 42560, 42656, 42744,
  42752, 42786, 42888, 42891, 42955, 42960, 42962, 42963, 42964, 42965, 42970, 42994, 43008, 43053,
  43056, 43066, 43072, 43128, 43136, 43206, 43214, 43226, 43232, 43264, 43310, 43311, 43312, 43348,
  43359, 43360, 43389, 43392, 43470, 43471, 43472, 43482, 43486, 43488, 43519, 43520, 43575, 43584,
  43598, 43600, 43610, 43612, 43616, 43648, 43715, 43739, 43744, 43767, 43777, 43783, 43785, 43791,
  43793, 43799, 43808, 43815, 43816, 43823, 43824, 43867, 43868, 43877, 43878, 43882, 43884, 43888,
  43968, 44014, 44016, 44026, 44032, 55204, 55216, 55239, 55243, 55292, 63744, 64110, 64112, 64218,
  64256, 64263, 64275, 64280, 64285, 64311, 64312, 64317, 64318, 64319, 64320, 64322, 64323, 64325,
  64326, 64336, 64451, 64467, 64830, 64832, 64912, 64914, 64968, 64975, 64976, 65008, 65024, 65040,
  65050, 65056, 65070, 65072, 65107, 65108, 65127, 65128, 65132, 65136, 65141, 65142, 65277, 65279,
  65280, 65281, 65313, 65339, 65345, 65371, 65382, 65392, 65393, 65438, 65440, 65471, 65474, 65480,
  65482, 65488, 65490, 65496, 65498, 65501, 65504, 65511, 65512, 65519, 65529, 65534, 65536, 65548,
  65549, 65575, 65576, 65595, 65596, 65598, 65599, 65614, 65616, 65630, 65664, 65787, 65792, 65795,
  65799, 65844, 65847, 65856, 65935, 65936, 65949, 65952, 65953, 66000, 66045, 66046, 66176, 66205,
  66208, 66257, 66272, 66273, 66300, 66304, 66340, 66349, 66352, 66379, 66384, 66427, 66432, 66462,
  66463, 66464, 66500, 66504, 66518, 66560, 66640, 66688, 66718, 66720, 66730, 66736, 66772, 66776,
  66812, 66816, 66856, 66864, 66916, 66927, 66928, 66939, 66940, 66955, 66956, 66963, 66964, 66966,
  66967, 66978, 66979, 66994, 66995, 67002, 67003, 67005, 67072, 67383, 67392, 67414, 67424, 67432,
  67456, 67462, 67463, 67505, 67506, 67515, 67584, 67590, 67592, 67593, 67594, 67638, 67639, 67641,
  67644, 67645, 67647, 67648, 67670, 67671, 67680, 67712, 67743, 67751, 67760, 67808, 67827, 67828,
  67830, 67835, 67840, 67868, 67871, 67872, 67898, 67903, 67904, 67968, 68000, 68024, 68028, 68048,
  68050, 68096, 68100, 68101, 68103, 68108, 68116, 68117, 68120, 68121, 68150, 68152, 68155, 68159,
  68169, 68176, 68185, 68192, 68224, 68256, 68288, 68327, 68331, 68343, 68352, 68406, 68409, 68416,
  68438, 68440, 68448, 68467, 68472, 68480, 68498, 68505, 68509, 68521, 68528, 68608, 68681, 68736,
  68787, 68800, 68851, 68858, 68864, 68904, 68912, 68922, 69216, 69247, 69248, 69290, 69291, 69294,
  69296, 69298, 69373, 69376, 69416, 69424, 69466, 69488, 69514, 69552, 69580, 69600, 69623, 69632,
  69710, 69714, 69750, 69759, 69760, 69827, 69837, 69838, 69840, 69865, 69872, 69882, 69888, 69941,
  69942, 69960, 69968, 70007, 70016, 70112, 70113, 70133, 70144, 70162, 70163, 70210, 70272, 70279,
  70280, 70281, 70282, 70286, 70287, 70302, 70303, 70314, 70320, 70379, 70384, 70394, 70400, 70404,
  70405, 70413, 70415, 70417, 70419, 70441, 70442, 70449, 70450, 70452, 70453, 70458, 70459, 70460,
  70469, 70471, 70473, 70475, 70478, 70480, 70481, 70487, 70488, 70493, 70500, 70502, 70509, 70512,
  70517, 70656, 70748, 70749, 70754, 70784, 70856, 70864, 70874, 71040, 71094, 71096, 71134, 71168,
  71237, 71248, 71258, 71264, 71277, 71296, 71354, 71360, 71370, 71424, 71451, 71453, 71468, 71472,
  71495, 71680, 71740, 71840, 71923, 71935, 71936, 71943, 71945, 71946, 71948, 71956, 71957, 71959,
  71960, 71990, 71991, 71993, 71995, 72007, 72016, 72026, 72096, 72104, 72106, 72152, 72154, 72165,
  72192, 72264, 72272, 72355, 72368, 72384, 72441, 72448, 72458, 72704, 72713, 72714, 72759, 72760,
  72774, 72784, 72813, 72816, 72848, 72850, 72872, 72873, 72887, 72960, 72967, 72968, 72970, 72971,
  73015, 73018, 73019, 73020, 73022, 73023, 73032, 73040, 73050, 73056, 73062, 73063, 73065, 73066,
  73103, 73104, 73106, 73107, 73113, 73120, 73130, 73440, 73465, 73472, 73489, 73490, 73531, 73534,
  73562, 73648, 73649, 73664, 73714, 73727, 73728, 74650, 74752, 74863, 74864, 74869, 74880, 75076,
  77712, 77811, 77824, 78934, 82944, 83527, 92160, 92729, 92736, 92767, 92768, 92778, 92782, 92784,
  92863, 92864, 92874, 92880, 92910, 92912, 92918, 92928, 92998, 93008, 93018, 93019, 93026, 93027,
  93048, 93053, 93072, 93760, 93851, 93952, 94027, 94031, 94088, 94095, 94112, 94176, 94177, 94178,
  94180, 94181, 94192, 94194, 94208, 100344, 100352, 101120, 101590, 101632, 101641, 110576,
  110580, 110581, 110588, 110589, 110591, 110592, 110593, 110880, 110883, 110898, 110899, 110928,
  110931, 110933, 110934, 110948, 110952, 110960, 111356, 113664, 113771, 113776, 113789, 113792,
  113801, 113808, 113818, 113820, 113824, 113828, 118528, 118574, 118576, 118599, 118608, 118724,
  118784, 119030, 119040, 119079, 119081, 119143, 119146, 119163, 119171, 119173, 119180, 119210,
  119214, 119275, 119296, 119366, 119488, 119508, 119520, 119540, 119552, 119639, 119648, 119673,
  119808, 119893, 119894, 119965, 119966, 119968, 119970, 119971, 119973, 119975, 119977, 119981,
  119982, 119994, 119995, 119996, 119997, 120004, 120005, 120070, 120071, 120075, 120077, 120085,
  120086, 120093, 120094, 120122, 120123, 120127, 120128, 120133, 120134, 120135, 120138, 120145,
  120146, 120486, 120488, 120780, 120782, 120832, 121484, 121499, 121504, 121505, 121520, 122624,
  122655, 122661, 122667, 122880, 122887, 122888, 122905, 122907, 122914, 122915, 122917, 122918,
  122923, 122928, 122990, 123023, 123024, 123136, 123181, 123184, 123198, 123200, 123210, 123214,
  123216, 123536, 123567, 123584, 123642, 123647, 123648, 124112, 124154, 124896, 124903, 124904,
  124908, 124909, 124911, 124912, 124927, 124928, 125125, 125127, 125143, 125184, 125260, 125264,
  125274, 125278, 125280, 126065, 126133, 126209, 126270, 126464, 126468, 126469, 126496, 126497,
  126499, 126500, 126501, 126503, 126504, 126505, 126515, 126516, 126520, 126521, 126522, 126523,
  126524, 126530, 126531, 126535, 126536, 126537, 126538, 126539, 126540, 126541, 126544, 126545,
  126547, 126548, 126549, 126551, 126552, 126553, 126554, 126555, 126556, 126557, 126558, 126559,
  126560, 126561, 126563, 126564, 126565, 126567, 126571, 126572, 126579, 126580, 126584, 126585,
  126589, 126590, 126591, 126592, 126602, 126603, 126620, 126625, 126628, 126629, 126634, 126635,
  126652, 126704, 126706, 126976, 127020, 127024, 127124, 127136, 127151, 127153, 127168, 127169,
  127184, 127185, 127222, 127232, 127406, 127462, 127488, 127489, 127491, 127504, 127548, 127552,
  127561, 127568, 127570, 127584, 127590, 127744, 128728, 128732, 128749, 128752, 128765, 128768,
  128887, 128891, 128986, 128992, 129004, 129008, 129009, 129024, 129036, 129040, 129096, 129104,
  129114, 129120, 129160, 129168, 129198, 129200, 129202, 129280, 129620, 129632, 129646, 129648,
  129661, 129664, 129673, 129680, 129726, 129727, 129734, 129742, 129756, 129760, 129769, 129776,
  129785, 129792, 129939, 129940, 129995, 130032, 130042, 131072, 173792, 173824, 177978, 177984,
  178206, 178208, 183970, 183984, 191457, 194560, 195102, 196608, 201547, 201552, 205744, 917505,
  917506, 917536, 917632, 917760, 918000]⟩

set_option maxRecDepth 20000 in
/-- The numbers of the scripts from each of these codes on. -/
def scriptOrder : Array Nat := #[
  0, 1, 0, 1, 0, 1, 0, 1, 0, 1, 0, 1, 0, 1, 0, 1, 0, 2, 0, 3, 4, 0, 4, 5, 4, 0, 4, 5, 4, 0, 4, 0,
  4, 5, 4, 5, 4, 5, 4, 6, 4, 7, 3, 7, 5, 8, 5, 8, 5, 8, 5, 9, 5, 9, 5, 9, 5, 10, 0, 10, 0, 10, 0,
  10, 0, 10, 0, 10, 3, 10, 3, 10, 0, 10, 11, 5, 11, 5, 11, 10, 12, 5, 13, 5, 13, 14, 5, 14, 5, 15,
  5, 15, 5, 11, 5, 10, 5, 10, 5, 10, 0, 10, 16, 3, 16, 0, 16, 17, 5, 17, 5, 17, 5, 17, 5, 17, 5,
  17, 5, 17, 5, 17, 5, 17, 5, 17, 5, 17, 5, 17, 5, 17, 5, 17, 5, 18, 5, 18, 5, 18, 5, 18, 5, 18, 5,
  18, 5, 18, 5, 18, 5, 18, 5, 18, 5, 18, 5, 18, 5, 18, 5, 18, 5, 18, 5, 18, 5, 19, 5, 19, 5, 19, 5,
  19, 5, 19, 5, 19, 5, 19, 5, 19, 5, 19, 5, 19, 5, 19, 5, 19, 5, 19, 5, 19, 5, 20, 5, 20, 5, 20, 5,
  20, 5, 20, 5, 20, 5, 20, 5, 20, 5, 20, 5, 20, 5, 20, 5, 20, 5, 20, 5, 20, 5, 21, 5, 21, 5, 21, 5,
  21, 5, 21, 5, 21, 5, 21, 5, 21, 5, 21, 5, 21, 5, 21, 5, 21, 5, 21, 5, 21, 5, 21, 5, 21, 5, 22, 5,
  22, 5, 22, 5, 22, 5, 22, 5, 22, 5, 22, 5, 22, 5, 22, 5, 22, 5, 22, 5, 22, 5, 22, 23, 5, 23, 5,
  23, 5, 23, 5, 23, 5, 23, 5, 23, 5, 23, 5, 23, 5, 23, 5, 23, 5, 23, 5, 23, 5, 24, 5, 24, 5, 24, 5,
  24, 5, 24, 5, 24, 5, 24, 5, 25, 5, 25, 5, 25, 5, 25, 5, 25, 5, 25, 5, 25, 5, 25, 5, 25, 5, 25, 5,
  25, 5, 25, 5, 26, 5, 0, 26, 5, 27, 5, 27, 5, 27, 5, 27, 5, 27, 5, 27, 5, 27, 5, 27, 5, 27, 5, 27,
  5, 27, 5, 28, 5, 28, 5, 28, 5, 28, 5, 28, 5, 28, 0, 28, 5, 29, 30, 5, 30, 5, 30, 5, 30, 0, 30,
  31, 32, 5, 32, 5, 32, 5, 32, 5, 32, 5, 32, 5, 32, 5, 32, 5, 32, 5, 32, 5, 32, 5, 32, 5, 32, 5,
  32, 5, 32, 5, 32, 5, 32, 5, 32, 5, 33, 5, 33, 5, 34, 35, 5, 36, 0, 36, 5, 37, 5, 37, 38, 0, 5,
  39, 5, 40, 5, 40, 5, 40, 5, 41, 5, 41, 5, 41, 5, 42, 0, 42, 0, 42, 5, 42, 5, 42, 5, 34, 5, 43, 5,
  43, 5, 43, 5, 43, 5, 43, 44, 5, 44, 5, 45, 5, 45, 5, 45, 5, 45, 41, 46, 5, 46, 47, 5, 47, 5, 47,
  5, 47, 5, 47, 5, 3, 5, 48, 5, 48, 5, 49, 50, 5, 50, 51, 5, 51, 5, 51, 52, 7, 5, 30, 5, 30, 49, 5,
  3, 0, 3, 0, 3, 0, 3, 0, 3, 0, 3, 0, 5, 1, 4, 7, 1, 4, 1, 4, 1, 7, 1, 4, 3, 1, 4, 5, 4, 5, 4, 5,
  4, 5, 4, 5, 4, 5, 4, 5, 4, 5, 4, 5, 4, 5, 4, 5, 4, 5, 4, 5, 4, 5, 4, 5, 4, 5, 0, 3, 0, 5, 0, 1,
  5, 0, 1, 0, 5, 1, 5, 0, 5, 3, 5, 0, 4, 0, 1, 0, 1, 0, 1, 0, 1, 0, 5, 0, 5, 0, 5, 0, 53, 0, 5, 0,
  5, 0, 54, 1, 6, 5, 6, 30, 5, 30, 5, 30, 5, 55, 5, 55, 5, 55, 32, 5, 32, 5, 32, 5, 32, 5, 32, 5,
  32, 5, 32, 5, 32, 5, 32, 5, 7, 0, 5, 56, 5, 56, 5, 56, 5, 0, 5, 0, 56, 0, 56, 0, 56, 3, 31, 0,
  56, 0, 5, 57, 5, 3, 0, 57, 0, 58, 0, 58, 5, 2, 5, 31, 5, 0, 2, 0, 5, 58, 31, 5, 0, 31, 0, 58, 0,
  58, 0, 56, 0, 56, 59, 5, 59, 5, 60, 61, 5, 7, 62, 5, 0, 1, 0, 1, 5, 1, 5, 1, 5, 1, 5, 1, 63, 5,
  0, 5, 64, 5, 65, 5, 65, 5, 16, 66, 0, 66, 67, 5, 67, 31, 5, 68, 5, 0, 68, 5, 68, 29, 5, 69, 5,
  69, 5, 69, 5, 69, 29, 70, 5, 70, 71, 5, 32, 5, 32, 5, 32, 5, 32, 5, 32, 5, 1, 0, 1, 4, 1, 0, 5,
  33, 71, 5, 71, 5, 31, 5, 31, 5, 31, 5, 56, 5, 56, 5, 1, 5, 8, 5, 9, 5, 9, 5, 9, 5, 9, 5, 9, 5, 9,
  10, 5, 10, 0, 10, 5, 10, 5, 10, 5, 10, 3, 0, 5, 3, 7, 0, 5, 0, 5, 0, 5, 10, 5, 10, 5, 0, 5, 0, 1,
  0, 1, 0, 58, 0, 58, 0, 31, 5, 31, 5, 31, 5, 31, 5, 31, 5, 0, 5, 0, 5, 0, 5, 72, 5, 72, 5, 72, 5,
  72, 5, 72, 5, 72, 5, 72, 5, 0, 5, 0, 5, 0, 4, 5, 0, 5, 4, 5, 0, 3, 5, 73, 5, 74, 5, 3, 0, 5, 75,
  5, 75, 76, 5, 77, 5, 78, 5, 78, 79, 5, 79, 5, 80, 81, 82, 5, 82, 5, 83, 5, 83, 5, 84, 5, 85, 5,
  85, 86, 5, 86, 5, 86, 5, 86, 5, 86, 5, 86, 5, 86, 5, 86, 5, 87, 5, 87, 5, 87, 5, 1, 5, 1, 5, 1,
  5, 88, 5, 88, 5, 88, 5, 88, 5, 88, 5, 88, 89, 5, 89, 90, 91, 5, 91, 5, 92, 5, 92, 5, 92, 93, 5,
  93, 94, 5, 94, 5, 95, 96, 5, 96, 5, 96, 97, 5, 97, 5, 97, 5, 97, 5, 97, 5, 97, 5, 97, 5, 97, 5,
  98, 99, 5, 100, 5, 100, 5, 101, 5, 101, 102, 5, 102, 103, 5, 103, 104, 5, 104, 5, 104, 5, 105, 5,
  106, 5, 106, 5, 106, 107, 5, 107, 5, 10, 5, 108, 5, 108, 5, 108, 5, 10, 109, 5, 110, 5, 111, 5,
  112, 5, 113, 5, 114, 5, 114, 5, 114, 115, 5, 115, 5, 116, 5, 116, 5, 117, 5, 117, 5, 118, 5, 119,
  5, 25, 5, 120, 5, 120, 5, 121, 5, 121, 5, 121, 5, 121, 5, 121, 5, 122, 5, 122, 5, 123, 5, 123, 5,
  123, 5, 123, 5, 123, 5, 123, 5, 123, 5, 3, 123, 5, 123, 5, 123, 5, 123, 5, 123, 5, 123, 5, 123,
  5, 123, 5, 124, 5, 124, 5, 125, 5, 125, 5, 126, 5, 126, 5, 127, 5, 127, 5, 42, 5, 128, 5, 128, 5,
  129, 5, 129, 5, 129, 5, 130, 5, 131, 5, 131, 132, 5, 132, 5, 132, 5, 132, 5, 132, 5, 132, 5, 132,
  5, 132, 5, 133, 5, 133, 5, 133, 5, 134, 5, 135, 5, 34, 136, 5, 16, 5, 137, 5, 137, 5, 137, 5,
  137, 5, 138, 5, 138, 5, 138, 5, 139, 5, 139, 5, 139, 5, 139, 5, 139, 5, 139, 5, 139, 5, 140, 5,
  140, 5, 140, 5, 140, 5, 140, 5, 140, 5, 141, 5, 142, 5, 142, 5, 142, 5, 60, 5, 21, 5, 21, 143, 5,
  143, 5, 143, 5, 143, 5, 144, 5, 145, 5, 146, 5, 62, 5, 147, 5, 147, 5, 147, 148, 5, 148, 5, 149,
  5, 149, 5, 150, 5, 150, 5, 150, 5, 150, 5, 150, 5, 151, 5, 152, 5, 152, 5, 152, 5, 153, 154, 56,
  155, 5, 56, 5, 153, 5, 153, 155, 5, 153, 5, 58, 5, 58, 5, 58, 5, 58, 57, 58, 5, 57, 5, 57, 5, 58,
  5, 58, 5, 154, 5, 156, 5, 156, 5, 156, 5, 156, 5, 156, 0, 5, 3, 5, 3, 5, 0, 5, 0, 5, 0, 5, 0, 3,
  0, 3, 0, 3, 0, 3, 0, 5, 4, 5, 0, 5, 0, 5, 0, 5, 0, 5, 0, 5, 0, 5, 0, 5, 0, 5, 0, 5, 0, 5, 0, 5,
  0, 5, 0, 5, 0, 5, 0, 5, 0, 5, 0, 5, 0, 5, 0, 5, 0, 5, 0, 5, 0, 5, 0, 5, 0, 5, 0, 157, 5, 157, 5,
  157, 5, 1, 5, 1, 5, 54, 5, 54, 5, 54, 5, 54, 5, 54, 5, 7, 5, 7, 5, 158, 5, 158, 5, 158, 5, 158,
  5, 159, 5, 160, 5, 160, 5, 161, 5, 32, 5, 32, 5, 32, 5, 32, 5, 162, 5, 162, 5, 163, 5, 163, 5,
  163, 5, 0, 5, 0, 5, 10, 5, 10, 5, 10, 5, 10, 5, 10, 5, 10, 5, 10, 5, 10, 5, 10, 5, 10, 5, 10, 5,
  10, 5, 10, 5, 10, 5, 10, 5, 10, 5, 10, 5, 10, 5, 10, 5, 10, 5, 10, 5, 10, 5, 10, 5, 10, 5, 10, 5,
  10, 5, 10, 5, 10, 5, 10, 5, 10, 5, 10, 5, 10, 5, 10, 5, 10, 5, 0, 5, 0, 5, 0, 5, 0, 5, 0, 5, 0,
  5, 0, 5, 0, 57, 0, 5, 0, 5, 0, 5, 0, 5, 0, 5, 0, 5, 0, 5, 0, 5, 0, 5, 0, 5, 0, 5, 0, 5, 0, 5, 0,
  5, 0, 5, 0, 5, 0, 5, 0, 5, 0, 5, 0, 5, 0, 5, 0, 5, 0, 5, 0, 5, 0, 5, 0, 5, 0, 5, 0, 5, 0, 5, 0,
  5, 56, 5, 56, 5, 56, 5, 56, 5, 56, 5, 56, 5, 56, 5, 56, 5, 0, 5, 0, 5, 3, 5]

/-- The names of every script, without case and marks between words. -/
def scriptNames : List (List String) := [
  ["zyyy", "common"], ["latn", "latin"], ["bopo", "bopomofo"], ["zinh", "inherited", "qaai"],
  ["grek", "greek"], ["zzzz", "unknown"], ["copt", "coptic", "qaac"], ["cyrl", "cyrillic"],
  ["armn", "armenian"], ["hebr", "hebrew"], ["arab", "arabic"], ["syrc", "syriac"],
  ["thaa", "thaana"], ["nkoo", "nko"], ["samr", "samaritan"], ["mand", "mandaic"],
  ["deva", "devanagari"], ["beng", "bengali"], ["guru", "gurmukhi"], ["gujr", "gujarati"],
  ["orya", "oriya"], ["taml", "tamil"], ["telu", "telugu"], ["knda", "kannada"],
  ["mlym", "malayalam"], ["sinh", "sinhala"], ["thai"], ["laoo", "lao"], ["tibt", "tibetan"],
  ["mymr", "myanmar"], ["geor", "georgian"], ["hang", "hangul"], ["ethi", "ethiopic"],
  ["cher", "cherokee"], ["cans", "canadianaboriginal"], ["ogam", "ogham"], ["runr", "runic"],
  ["tglg", "tagalog"], ["hano", "hanunoo"], ["buhd", "buhid"], ["tagb", "tagbanwa"],
  ["khmr", "khmer"], ["mong", "mongolian"], ["limb", "limbu"], ["tale", "taile"],
  ["talu", "newtailue"], ["bugi", "buginese"], ["lana", "taitham"], ["bali", "balinese"],
  ["sund", "sundanese"], ["batk", "batak"], ["lepc", "lepcha"], ["olck", "olchiki"],
  ["brai", "braille"], ["glag", "glagolitic"], ["tfng", "tifinagh"], ["hani", "han"],
  ["hira", "hiragana"], ["kana", "katakana"], ["yiii", "yi"], ["lisu"], ["vaii", "vai"],
  ["bamu", "bamum"], ["sylo", "sylotinagri"], ["phag", "phagspa"], ["saur", "saurashtra"],
  ["kali", "kayahli"], ["rjng", "rejang"], ["java", "javanese"], ["cham"], ["tavt", "taiviet"],
  ["mtei", "meeteimayek"], ["linb", "linearb"], ["lyci", "lycian"], ["cari", "carian"],
  ["ital", "olditalic"], ["goth", "gothic"], ["perm", "oldpermic"], ["ugar", "ugaritic"],
  ["xpeo", "oldpersian"], ["dsrt", "deseret"], ["shaw", "shavian"], ["osma", "osmanya"],
  ["osge", "osage"], ["elba", "elbasan"], ["aghb", "caucasianalbanian"], ["vith", "vithkuqi"],
  ["lina", "lineara"], ["cprt", "cypriot"], ["armi", "imperialaramaic"], ["palm", "palmyrene"],
  ["nbat", "nabataean"], ["hatr", "hatran"], ["phnx", "phoenician"], ["lydi", "lydian"],
  ["mero", "meroitichieroglyphs"], ["merc", "meroiticcursive"], ["khar", "kharoshthi"],
  ["sarb", "oldsoutharabian"], ["narb", "oldnortharabian"], ["mani", "manichaean"],
  ["avst", "avestan"], ["prti", "inscriptionalparthian"], ["phli", "inscriptionalpahlavi"],
  ["phlp", "psalterpahlavi"], ["orkh", "oldturkic"], ["hung", "oldhungarian"],
  ["rohg", "hanifirohingya"], ["yezi", "yezidi"], ["sogo", "oldsogdian"], ["sogd", "sogdian"],
  ["ougr", "olduyghur"], ["chrs", "chorasmian"], ["elym", "elymaic"], ["brah", "brahmi"],
  ["kthi", "kaithi"], ["sora", "sorasompeng"], ["cakm", "chakma"], ["mahj", "mahajani"],
  ["shrd", "sharada"], ["khoj", "khojki"], ["mult", "multani"], ["sind", "khudawadi"],
  ["gran", "grantha"], ["newa"], ["tirh", "tirhuta"], ["sidd", "siddham"], ["modi"],
  ["takr", "takri"], ["ahom"], ["dogr", "dogra"], ["wara", "warangciti"], ["diak", "divesakuru"],
  ["nand", "nandinagari"], ["zanb", "zanabazarsquare"], ["soyo", "soyombo"], ["pauc", "paucinhau"],
  ["bhks", "bhaiksuki"], ["marc", "marchen"], ["gonm", "masaramgondi"], ["gong", "gunjalagondi"],
  ["maka", "makasar"], ["kawi"], ["xsux", "cuneiform"], ["cpmn", "cyprominoan"],
  ["egyp", "egyptianhieroglyphs"], ["hluw", "anatolianhieroglyphs"], ["mroo", "mro"],
  ["tnsa", "tangsa"], ["bass", "bassavah"], ["hmng", "pahawhhmong"], ["medf", "medefaidrin"],
  ["plrd", "miao"], ["tang", "tangut"], ["nshu", "nushu"], ["kits", "khitansmallscript"],
  ["dupl", "duployan"], ["sgnw", "signwriting"], ["hmnp", "nyiakengpuachuehmong"], ["toto"],
  ["wcho", "wancho"], ["nagm", "nagmundari"], ["mend", "mendekikakui"], ["adlm", "adlam"]]

/-- The script that characters without one belong to. -/
def unknownScript : Nat := 5

/-- The number of a character's script. -/
def script (c : Char) : Nat :=
  let size := scriptStarts.boundaries.size
  scriptOrder.getD (scriptStarts.rank c.toNat size 0 size - 1) unknownScript

/-- The number of the script of a name. Characters without a script cannot be asked for. -/
def scriptNamed? (name : String) : Option Nat :=
  (scriptNames.findIdx? (·.contains name)).filter (· != unknownScript)

theorem scriptNamed?_latin : scriptNamed? "latn" = scriptNamed? "latin" := by decide +kernel

end StackScript.Text
