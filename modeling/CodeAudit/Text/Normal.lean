import CodeAudit.Text.Table

/-!
# Compatibility normal form

Two identifiers are the same name if their normal forms agree. The normal form replaces every character
by its compatibility decomposition, sorts runs of combining marks by their class, and then composes
marks with the starter before them where the standard has a composite.

## Main definitions

* `decompose` — the compatibility decomposition, with marks in canonical order.
* `normalize` — the compatibility normal form of an identifier.
-/

namespace CodeAudit.Text

/-- Full compatibility decompositions of the characters of identifiers, Hangul syllables apart. -/
def decompositionTable : Table (List Char) := Table.mapping
  "aa=61 b5=3bc a=06f c0=41.300,.1,.2,.3,.8,.a 7=3.27,5.00,.1,.2,.8,9.0,.1,.2,.8 d1=e.3,f.0,.1,.2,.3,.8
   9=55.0,.1,.2,.8,9.1 e0=61.0,.1,.2,.3,.8,.a 7=3.27,5.00,.1,.2,.8,9.0,.1,.2,.8 f1=e.3,f.0,.1,.2,.3,.8
   9=75.0,.1,.2,.8,9.1 f=.8,41.4,61.,41.6,61.,41.28,61.,43.01,63.,43.2,63.,43.7,63.,43.c,63.,44.,64.
   112=45.4,65.,45.6,65.,45.7,65.,45.28,65.,45.0c,65.,47.2,67.,47.6,67.,47.7,67.,47.27,67.,48.02,68.
   28=49.3,69.,49.4,69.,49.6,69.,49.28,69.,49.07 32=.04a,69.6a,4a.302,6a.,4b.27,6b. 9=4c.01,6c.,4c.27,6c.
   4c.0c,6c.,4c.0b7,6c. 43=4e.301,6e.,4e.27,6e.,4e.0c,6e.,2bc.06e c=04f.304,6f.,4f.6,6f.,4f.b,6f. 54=52.1
   72.,52.27,72.,52.0c,72.,53.1,73.,53.2,73.,53.27,73.,53.0c,73.,54.27,74.,54.0c,74. 68=55.3,75.,55.4,75.
   55.6,75.,55.a,75.,55.b,75.,55.28,75.,57.02,77.,59.,79.,59.8,a.1,7a.,5a.7,7a.,5a.c,7a.,3 a0=4f.31b,6f.
   f=55.,75. c4=44.05a.30c,.7a.,64..,4c.4a,.6a,6c.,4e.4a,.6a,6e.,41.30c,61.,49.,69.,4f.,6f.,55.,75.
   55.8.304,75..,55..1,75..,55..c,75..,55..0,75.. de=41..4,61..,41.7.,61..,c6.4,e6. e6=47.c,67.,4b.,6b.
   4f.28,6f.,4f..304,6f..,1b7.0c,292.,06a.,44.05a,.7a,64.,47.301,67. f8=4e.0,6e.,41.a.301,61..,c6.1,e6.
   d8.,f8.,41.f,61.,41.11,61.,45.0f,65.,45.11,65.,49.0f,69.,49.11,69.,4f.0f,6f.,4f.11,6f.,52.0f,72.,52.11
   72.,55.0f,75.,55.11,75.,53.26,73.,54.,74. 21e=48.0c,68. 26=41.7,61.,45.27,65.,4f.08.304,6f..,4f.3.,6f..
   4f.7,6f.,4f..304,6f..,59.4,79. b0=68,266,06a,72,279,b,81,077,9 e0=263,06c,73,8,295 340=300,1 3=13
   08.301 74=2b9 86=391.301,0b7,395.301,7.,9. c=f. e=a5.,9.,b9.8.301 aa=99.,a5.,b1.1,5.,7.,9.,c5.8.301
   ca=b9.,c5.,bf.1,c5.,9. d0=b2,8,a5,.301,.8,c6,0 f0=ba,c1,2 4=98,b5 9=a3 400=415.300,.8 3=3.1 7=06.8
   c=1a.1,8.0,23.6 19=18. 39=38. 50=5.0,.8 3=3.1 7=56.8 c=3a.1,8.0,43.6 76=74.f,5. c1=16.6,36. d0=10.,30.
   10.8,30. 6=15.6,35. a=d8.8,9.,16.,36.,17.,37. e2=18.4,38.,18.8,38.,1e.,3e. a=e8.,9.,2d.,4d.,23.4,43.
   23.8,43.,23.b,43.,27.8,47. f8=2b.,4b. 587=565.582 622=627.653,.4,48.,27.5,4a.4 75=27.74,48.,c7.,4a.
   c0=d5.54 2=c1. d3=d2. 929=928.93c 31=30. 4=3. 58=15.,6.,7.,c.,21.,2.,b.,f. cb=c7.be,.d7 dc=a1.bc,2.
   f=f. a33=a32.a3c 6=8. 59=16.,7.,c. e=2b. b48=b47.b56 b=.3e,.57 5c=21.3c,2. 94=92.d7 ca=c6.be,7.,6.d7
   c48=c46.c56 c0=bf.d5 7=c6.,.6 a=.c2,..cd5 d4a=d46.d3e,7.,6.57 da=d9.ca c=.f,..dca,.df e33=e4d.e32
   b3=cd.b2 dc=ab.99,.a1 f43=f42.fb7 d=c. 52=51. 7=6. c=b. 69=40.5 73=71.72 5=.4,b2.80,.71.f80,3.80
   .71.f80 81=71.80 93=92.b7 d=c. a2=a1. 7=6. c=b. b9=90.5 1026=1025.102e fc=dc b06=b05.1b35 8=7. a=9.
   c=b. e=d. 12=11. 3b=3a. d=c. 40=e.,f. 3=42. d2c=0041,c6,42 30=4,5,18e,047-e c=f,222,050,2,4,5,7,61,250
   1,1d02,0062,4,5,259,b,c,067 4f=b,d,14b,06f,254,1d16,7,0070,4,5,1d1d,026f,076,1d25,03b2-4,c6,7,069,72,5
   6,3b2,3,c1,6,7 78=43d 9b=252,063,255,0f0,25c,066,25f,61,5,8-a,1d7b,029d,6d,1d85,029f,71,0,2-5,8,82,3
   1ab,289,a,1d1c,028b,c,07a,290-2,3b8 e00=041.325,61.,42.07,62.,42.23,62.,42.31,62.,43.27.301,63..,44.07
   64.,44.23,64.,44.31,64.,44.27,64.,44.d,64.,45.04.300,65..,45..1,65..,45.2d,65.,45.30,65.,45.27.306,65..
   46.07,66.,47.4,67.,48.7,68.,48.23,68.,48.08,68.,48.27,68.,48.e,68.,49.30,69.,49.08.301,69..,4b.1,6b.
   4b.23,6b.,4b.31,6b.,4c.23,6c.,4c..304,6c..,4c.31,6c.,4c.2d,6c.,4d.01,6d.,4d.7,6d.,4d.23,6d.,4e.07,6e.
   4e.23,6e.,4e.31,6e.,4e.2d,6e.,4f.03.301,6f..,4f..8,6f..,4f.4.0,6f..,4f..1,6f..,50.1,70.,50.7,70.,52.
   72.,52.23,72.,52..304,72..,52.31,72.,53.07,73.,53.23,73.,53.01.307,73..,53.c.,73..,53.23.,73..,54.07
   74.,54.23,74.,54.31,74.,54.2d,74.,55.4,75.,55.30,75.,55.2d,75.,55.03.301,75..,55.4.8,75..,56.3,76.
   56.23,76.,57.00,77.,57.1,77.,57.8,77.,57.7,77.,57.23,77.,58.07,78.,58.8,78.,59.7,79.,5a.2,7a.,5a.23,7a.
   5a.31,7a.,68.,74.08,7.a,9.,61.2be,73.307 a0=41.23,61.,41.09,61.,41.2.301,61..,41..0,61..,41..9,61..
   41..3,61..,41.23.2,61..,41.06.1,61..,41..0,61..,41..9,61..,41..3,61..,41.23.6,61..,45.,65.,45.09,65.
   45.3,65.,45.2.301,65..,45..0,65..,45..9,65..,45..3,65..,45.23.2,65..,49.09,69.,49.23,69.,4f.,6f.,4f.09
   6f.,4f.2.301,6f..,4f..0,6f..,4f..9,6f..,4f..3,6f..,4f.23.2,6f..,4f.1b.1,6f..,4f..0,6f..,4f..9,6f..
   4f..3,6f..,4f..23,6f..,55.23,75.,55.09,75.,55.1b.301,75..,55..0,75..,55..9,75..,55..3,75..,55..23,75..
   59.00,79.,59.23,79.,59.09,79.,59.3,79. f00=3b1.13,.4,.3.300,.4.,.3.1,.4.,.3.42,.4.,91.3,.4,.3.300,.4.
   .3.1,.4.,.3.42,.4.,b5.3,.4,.3.300,.4.,.3.1,.4. 18=95.3,.4,.3.300,.4.,.3.1,.4. 20=b7.3,.4,.3.300,.4.
   .3.1,.4.,.3.42,.4.,97.3,.4,.3.300,.4.,.3.1,.4.,.3.42,.4.,b9.3,.4,.3.300,.4.,.3.1,.4.,.3.42,.4.,99.3,.4
   .3.300,.4.,.3.1,.4.,.3.42,.4.,bf.3,.4,.3.300,.4.,.3.1,.4. 48=9f.3,.4,.3.300,.4.,.3.1,.4. 50=c5.3,.4
   .3.300,.4.,.3.1,.4.,.3.42,.4. 9=a5. b=..300 d=..1 f=..42,c9.3,.4,.3.300,.4.,.3.1,.4.,.3.42,.4.,a9.3,.4
   .3.300,.4.,.3.1,.4.,.3.42,.4.,b1.00,.1,5.0,.1,7.0,.1,9.0,.1,f.0,.1,c5.0,.1,9.0,.1 80=b1.13.345,.4.
   .3.00.345,.4..,.3.1.,.4..,.3.42.,.4..,91.3.5,.4.,.3.00.345,.4..,.3.1.,.4..,.3.42.,.4..,b7.3.5,.4.
   .3.00.345,.4..,.3.1.,.4..,.3.42.,.4..,97.3.5,.4.,.3.00.345,.4..,.3.1.,.4..,.3.42.,.4..,c9.3.5,.4.
   .3.00.345,.4..,.3.1.,.4..,.3.42.,.4..,a9.3.5,.4.,.3.00.345,.4..,.3.1.,.4..,.3.42.,.4..,b1.06,.4,.0.345
   .45,.01.345 b6=.42,..345,91.06,.4,.0,.1,.45 e=b9 c2=7.300.345,.45,.01.345 6=.42,..345,95.00,.1,7.0,.1
   .45 d0=b9.06,.4,.8.300,..1 6=.42,.08.342,99.6,.4,.0,.1 e0=c5.6,.4,.8.300,..1,1.13,.4,5.42,.08.342,a5.6
   .4,.0,.1,1.14 f2=c9.00.345,.45,.01.345 6=.42,..345,9f.00,.1,a9.0,.1,.45 2071=069 f=e 90=1,5,f,78,259
   068,b-e,70,3,4 102=43 7=190 a=067,48,,,68,127,049,,c,6c 15=4e 9=50-2,, 24=a 6=3a9 8=05a a=4b,1.30a,2,3
   f=65,45,6 33=d,6f,5d0-3,069 c=3c0,b3,93,a0 45=044,64,5,9,a 60=49,.49,..49,.56,56,.49,..49,...49,49.58
   58,.49,..49,4c,3,4,d,69,.69,..69,.76,76,.69,..69,...69,69.78,78,.69,..69,6c,3,4,d c7c=a,56 d6f=2d61
   3038=5341,4,5 4c=304b.3099 e=d. 50=f. 2=51. 4=3. 6=5. 8=7. a=9. c=b. e=d. 60=f. 2=61. 5=4. 7=6. 9=8.
   70=f.,.a 3=72.9,.a 6=5.9,.a 9=8.9,.a c=b.9,.a 94=46.9 e=9d.,88.8a ac=ab.99 e=d. b0=f. 2=b1. 4=3. 6=5.
   8=7. a=9. c=b. e=d. c0=f. 2=c1. 5=4. 7=6. 9=8. d0=f.,.a 3=d2.9,.a 6=5.9,.a 9=8.9,.a c=b.9,.a f4=a6.9
   7=ef.,f0.,1.,2. e=d.,b3.c8 131=1100,1,aa,02,ac,d,03-5,b0-5,1a,06-8,21,09-12,61-75,60,14,5,c7,8,c,e,d3,7
   9,1c,dd,f,1d,e,20,2,3,7,9,b-f,32,6,40,7,c,f1,2,57-9,84,5,8,91,2,4,e,a1 a69c=044a,c 770=a76f f2=0043,6
   51 8=126,53 b5c=a727,b37,026b,ab52 69=028d f900=8c48,66f4,8eca,cc8,6ed1,4e32,53e5,9f9c,,5951,91d1,5587
   948,61f6,7669,f85,863f,7ba,8f8,908f,6a02,d1b,70d9,3de,843d,916a,9f1,4e82,5375,6b04,721b,862d,9e1e,5d50
   6feb,85cd,964,62c9,81d8,81f,5eca,6717,d6a,72fc,90ce,4f86,51b7,2de,64c4,ad3,7210,6e7,8001,606,5c,def
   9732,b6f,dfa,788c,97f,da0,83c9,9304,e7f,8ad6,58df,f04,7c60,807e,7262,8ca,8cc2,96f7,58d8,c62,6a13,dda
   f0f,7d2f,e37,964b,52d2,808b,51dc,cc,7a1c,dbe,83f1,9675,8b80,62cf,a02,8afe,4e39,5be7,6012,7387,570,5317
   78fb,4fbf,5fa9,4e0d,6ccc,578,7d22,53c3,85e,7701,8449,aaa,6bba,8fb0,6c88,2fe,82e5,63a0,7565,4eae,5169,c9
   6881,7ce7,826f,ad2,91cf,52f5,442,973,eec,65c5,ffe,792a,95ad,a6a,e97,ce,529b,66c6,b77,8f62,5e74,6190,200
   49a,f23,7149,489,9ca,df4,806f,f26,4ee,9023,34a,5217,a3,4bd,70c8,88c2,aaa,5ec9,ff5,637b,bae,7c3e,375
   4ee4,56f9,be7,dba,601c,73b2,469,f9a,8046,9234,6f6,748,818,4f8b,79ae,91b4,6b8,60e1,4e86,50da,bee,c3f
   6599,a02,71ce,642,84fc,907c,f8d,6688,962e,5289,677b,f3,d41,e9c,7409,559,86b,d10,985e,516d,622e,9678
   502b,d19,6dea,8f2a,5f8b,6144,817,7387,9686,5229,40f,c65,6613,74e,8a8,ce5,7406,5e2,f79,88cf,e1,91cc,6e2
   533f,6eba,541d,71d0,498,85fa,96a3,c57,e9f,6797,dcb,81e8,7acb,b20,c92,2c0,099,8b58,4ec0,8336,523a,07,ea6
   62d3,7cd6,5b85,6d1e,6b4,8f3b,84c,964d,898b,5ed3,140,5c0 a10=85a 2=6674 5=51de,732a,6ca,93c,5e,65,8f
   9756,7cbe,fbd 20=8612 2=af8 5=9038,fd a=8ef,fc,928,db4,0de,6b7,4fae,50e7,14d,2c9,e4,351,59d,606,68,840
   a8,c64,e,6094,168,8e,f2,54f,e2,691,885,d77,e1a,f22,716e,22b,422,891,93e,49,8,50,6,d,8d,e,a40,81,bc0,df4
   e09,41,f72,8005,1ed,279,,457,910,96,b01,39,cd3,d08,fb6,9038,6e3,7ff,83b,6075,242ee,08218 70=4e26,51b5
   68,4f80,5145,80,2c7,fa,59d,55,99,e2,85a,b3,944,54,a62,b28,ed2,9,f69,ad,60d8,14e,08,8e,60,f2,234,3c4,41c
   52,556,674,717,b,56,b79,ba,d41,edb,cb,f22,701e,16e,7a7,235,af,32a,471,506,3b,61d,f,ca,db,f4,74a,0,8cc
   ab1,bc0,c7b,d5b,f4,f3e,8005,352,ef,779,941,86,96,abf,f8,cb,b01,afe,ed,b39,8a,d08,f38,9072,199,276,67c
   e3,756,db,ff,80b,3b,b12,f9c,2284a,4,33d5,03b9d,4018,39,25249,cd0,7ed3,09f43,8e b00=0066.66,.9,.c,.6.69
   ..c,73.74,. 13=574.576,.65,.b,e.76,4.6d d=d9.b4 f=f2.7,e2,d0,3,4,b-d,e8,a 2a=9.5c1,.2,.bc.5c1,..2,d0.7
   .8,.c,1.,2.,3.,4.,5.,6. 38=8.,9.,a.,b.,c. e=e. 40=e0.,1. 3=3.,4. 6=6.,7.,8.,9.,a.,d5.9,1.f,b.,e4.,d0.dc
   671,,b,,,,e,,,,80,,,,7a,,,,f,,,,9,,,,a4,,,,6,,,,84,,,,3,,,,6,,,,7,,,,d,,c,,e,,8,,98,,1,,a9,,,,f,,,,b3,,,
   1,,,,a,,b,,,,d5.654,.,c1,,,,be,,,,d2,,.654,. d3=ad,,,,c7,,6,,8,,7.674,b,,5,,9,,d0,,,,49,,a.654.627,..
   ..d5,..,..48,..,..c7,..,..6,..,..8,..,..d0,..,..,..49,..,..,cc,,,,4a.654.62c,..d,..45,..9,..a,28.2c,.d
   .e,.45,.9,.a,a.2c,.d,.e,.45,.9,.a,b.2c,.45,.9,.a,c.2d,.45,d.2c,.45,e.2c,.d,.45,33.2c,.d,.e,.45,5.2d,.45
   6.2c,.d,.e,.45,7.2d,.45,8.,9.2c,.45,a.2c,.45,41.2c,.d,.e,.45,.9,.a,2.2d,.45,.9,.a,3.27,.c,.d,.e,.44,.5
   .9,.a,4.2c,.d,.e,.45,.9,.a,5.2c,.d,.e,.45,.9,.a,6.2c,.d,.e,.45,.9,.a,7.2c,.45,.9,.a,a.2c,.d,.e,.45,.9
   .a,30.70,1.,49. c64=a.54.631,..2,..45,..6,..9,..a,28.31,.2,.45,.6,.9,.a,a.31,.2,.45,.6,.9,.a,b.31,.2
   .45,.6,.9,.a,41.9,.a,2.9,.a,3.27,.44,.5,.9,.a,4.5,.9,.a,5.27,.45,6.31,.2,.45,.6,.9,.a,9.70,a.31,.2,.45
   .6,.9,.a,.54.62c,..d,..e,..45,..7,28.2c,.d,.e,.45,.7,a.2c,.d,.e,.45,.7,b.5,c.2d,.45,d.2c,.45,e.2c,.45
   33.2c,.d,.e,.45,5.2d,.e,.45,6.2c,.d,.e,.45,7.2d,8.45,9.2c,.45,a.2c,.45,41.2c,.d,.e,.45,2.2d,.45,3.2c,.d
   .e,.44,.5,4.2c,.d,.e,.45,.7,5.2c,.d,.e,.45,6.2c,.d,.e,.45,.7,7.2c,.45,.70,a.2c,.d,.e,.45,.7,.54.645,..7
   28.45,.7,a.5,.7,b.5,.7,33.5,.7,4.5,.7,43.4,.5,4.,6.,.7,a.5,.7,0.e.651,.f.,.50.,37.49,.a,9.9,.a,a.9,.a
   3.9,.a,4.9,.a,2d.9,.a,c.9,.a,e.9,.a,35.9,.a,6.9,.a,4.2c,.d,.e,.45,.31,3.,5.,6.,7.49,.a,9.9,.a,a.9,.a
   3.9,.a,4.9,.a,2d.9,.a,c.9,.a,e.9,.a,35.9,.a,6.9,.a,4.2c,.d,.e,.45,.31,3.,5.,6.,4.2c,.d,.e,.45,3.7,4.
   7.5,3.2c,.d,.e,4.c,.d,.e,7.45,8.,27.b,. d50=a.2c.645,.d.2c,..,..45,.e.,.45.2c,..d,..e,c..d,..,d..4a,..9
   33.2d.2c,.c.d,..49,.45.2d,..,..c,..45,..,5.2d.2d,..,.45.45,4.2d.,..,.c.a,.45.2e,..,..45,..,6.2d.9,.e.5
   ..,7.45.2d,..,..45,..a,9.2c.5,.45.,..,..9,a..5,..a,..9,41.2e.5,..,2.45.2d,..45,4.2d.,..a,..9,.c.2c,..
   .e.45,..,.45.2d,..,5.2d.c,..45,..a,.c.2d,..45,.e.2c,..45 92=.c.2e,7.45.c,..45,6.2d.,..9,.c.5,..,..9
   .45.a,..9,a..5,..,28.2e.a,a.c.,..9,.e.a,..9,.45.a,..9,c..a,.2d.9,.45.,33.2e.,5.d.a,4..,6..,44.c.,.45.
   a.2d.,.c.,.45.,5..,2..,6.2d.,2.45.2d,4.2d.45,39.45.a,43..,6.2c.2d,5.e.4a,4.c.5,3.45.,4.2c.,6..2d
   2c.d.4a,d.c.,45..,1.45.,28.2d.,43.45.5,39.2c.,5.45.,3.2e.a,46.c. f0=35.44.d2,42..,27..44.647,.3.28.31
   45.2d.45.2f,35.44.39.45,1.33.48.4,9.44.a.7,48.33.4.5,35.44.9 e33=05f, 4d=,, 71=640.64b 7=.e 9=.f b=.50
   d=.1 f=.2,21,7.653,.,.4,.,48.,.,27.5,.,4a.4,.,.,.,27,,8,,,,9,,a,,,,b,,,,c,,,,d,,,,e,,,,f,,30,,1,,2,,3,,,
   4,,,,5,,,,6,,,,7,,,,8,,,,9,,,,a,,,,41,,,,2,,,,3,,,,4,,,,5,,,,6,,,,7,,,,8,,9,,a,,,,4.627.653,..,..4,..
   ..5,..,.,. f10=030-9 21=41-5a 3f=f 41=61-7a 66=30f2,a1,3,5,7,9,e3,5,7,c3,fc,a2,4,6,8,a,b,d,f,b1,3,5,7,9
   b,d,f,c1,4,6,8,a-f,d2,5,8,b,e-e2,4,6,8-d,f,f3,99,a,1160,00,1,aa,02,ac,d,03-5,b0-5,1a,06-8,21,09-12
   c2=61-6 a=7-c d2=d-72 a=3-5 10781=02d0,1,0e6,299,53 7=a3,ab66,02a5,4,56,7,1d91,0258,e,a9,64,2,0,9b,127
   29c,67,84,aa,b,6c,1df04,0a78e,026e,1df05,0028e,1df06,000f8,276,7,071,27a,1df08,0027d,e,80,a8,6,ab67
   02a7,88,2c71 b2=028f,a1,2,98,1c0-2,1df0a,1e 109a=1099.110ba c=b. ab=a5. 12e=131.127,2. 34b=347.33e,.57
   4bb=4b9.4ba,.0 e=.d 5ba=5b8.5af,9. 938=935.930 d400=00041-5a,61-7a,41-5a,61-7 56=9-7a,41-5a,61-7a,41
   9e=3,4 a2=7 5=a,b 9=e-51 e=3-a,61-4 bb=6 d=8-e c5=70-a,41-5a,61-7a,41,2 507=4-7 d=a-51 16=3-9 e=61-7a
   41,2 3b=4-7 40=9-d 6=f a=53-9 52=61-7a,41-5a,61-7a,41-5a,61-7a,41-5a,61-7a,41-5a,61-7a,41-5a,61-7a
   41-5a,61-7a,131,237 6a8=391-a1,98,a3-9 c2=b1-c9 dc=b5,8,a,c6,1,0,91-a1,98,a3-9 fc=b1-c9 716=b5,8,a,c6,1
   0,91-a1,98,a3-9 36=b1-c9 50=b5,8,a,c6,1,0,91-a1,98,a3-9 70=b1-c9 8a=b5,8,a,c6,1,0,91-a1,98,a3-9
   aa=b1-c9 c4=b5,8,a,c6,1,0,dc,d e=030-9,0-9,0-9,0-9,0-9 ee00=627,8,c,f 5=48,32,2d,37,4a,3-6,33,9,41,35
   42,31,4,2a,b,e,30,6,8,a,6e,ba,a1,6f 21=28,c 4=47 7=2d 9=4a,3-6,33,9,41,35,42 34=34,2a,b,e 9=36 b=a
   42=2c 7=d 9=4a b=4 d=6,33,9 51=5,42 4=34 7=2e 9=36 b=a d=ba f=6f 61=28,c 4=47 7=2d,37,4a,3 c=5,6,33,9
   41,35,42 74=34,2a,b,e 9=36,8,a,6e e=a1 80=27,8,c,f,47,8,32,2d,37,4a b=4-6,33,9,41,35,42,31,4,2a,b,e,30
   6,8,a a1=28,c,f 5=48,32,2d,37,4a b=4-6,33,9,41,35,42,31,4,2a,b,e,30,6,8,a fbf0=030-9 2f800=4e3d,8,41
   20122,04f60,ae,bb,5002,7a,99,e7,cf,349e,2063a,0514d,54,64,77,2051c,034b9,5167,8d,2054b,05197,a4,4ecc
   51ac,b5,291df,051f5,203,34df,523b,46,72,7,3515,52c7,9,e4,fa,305,6,17,49,51,a,73,d,f,,,20a2c,07070,53ca
   df,20b63,053eb,f1,406,9e,38,48,68,a2,f6,510,53,63,84,,99,ab,b3,c2,716,606,717,651,74,207,8ee,7ce,f4,80d
   78b,832,1,ac,214e4,058f2,7,906,1a,22,62,216a8,ea,059ec,a1b,27,9d8,a66,36ee,fc,5b08,3e,,219c8,05bc3,d8
   e7,f3,21b18,05bff,c06,f53,c22,3781,5c60,e,c0,8d,21de4,05d43,21de6,05d6e,b,7c,e1,2,382f,5dfd,e28,3d,69
   3862,22183,0387c,5eb0,3,6,ca,2a392,05efe,22331,,08201,5f22,,38c7,232b8,61da,05f62,b,38e3,5f9a,cd,d7,f9
   6081,393a,1c,6094,226d4,060c7,148,c,e,c,7a,8e,b2,a4,f,de,f2,6,210,b,5d,b1,d4,350,22b0c,0633d,2fc,368,83
   e4,22bf1,06422,3c5,a9,3a2e,6469,7e,9d,77,3a6c,654f,6c,2300a,065e3,6f8,49,3b19,6691,3b08,ae4,5192,5,6700
   69c,80ad,43d9,6717,b,21,5e,3,233c3,03b49,67fa,85,852,85,2346d,0688e,1f,914,3b9d,6942,a3,ea,aa8,236a3
   06adb,3c18,6b21,238a7,06b54,3c4e,6b72,9f,ba,b,23a8d,1d0b,3afa,06c4e,23cbc,06cbf,cd,67,d16,3e,77,41,69
   78,85,23d1e,06d34,e2f,6e,3d33,6ecb,7,23ed1,06df9,f6e,23f5e,8e,06fc6,7039,1e,b,3d96,704a,7d,7,ad,20525
   07145,24263,0719c,243ab,07228,35,50,24608,07280,95,24735,814,0737a,8b,3eac,73a5,3eb8,,7447,5c,71,85,ca
   3f1b,7524,24c36,0753e,24c92,07570,2219f,07610,24fa1,b8,5044,03ffc,4008,76f4,250f3,2,119,33,0771e,f,,4a
   4039,778b,4046,96,2541d,0784e,8c,cc,40e3,25626,07956,2569a,c5,0798f,eb,412f,7a40,a,f,2597c,aa7,,07aee
   4202,25bab,07bc6,9,4227,25c80,07cd2,42a0,7ce8,3,d00,25f86,07d63,4301,7dc7,e02,45,4334,26228,47,04359
   262d9,07f7a,2633e,07f95,fa,8005,264da,523,08060,265a8,08070,2335f,043d5,80b2,103,440b,813e,5ab5,267a7
   b5,3393,c,08201,4,f9e,446b,8291,8b,9d,52b3,82b1,3,d,e6,26b3c,082e5,31d,63,ad,23,bd,e7,457,353,ca,c,dc
   26c36,d6b,cd5,0452b,84f1,3,516,273ca,08564,26f2c,0455d,61,26fb1,70d2,0456b,8650,c,67,9,a9,88,70e,6e2
   779,28,6b,86,45d7,87e1,801,45f9,8860,3,27667,088d7,e,4635,88fa,34bb,278ae,966,046be,c7,8aa0,ed,b8a,c55
   27ca8,08cab,c1,d1b,77,27f2f,0804,08dcb,bc,f0,208de,08ed4,f38,285d2,ed,09094,f1,111,2872e,0911b,238,d7,8
   7c,3f9,415,28bfa,0958b,4995,95b7,28d77,049e6,96c3,5db2,9723,29145,21a,04a6e,76,97e0,2940a,04ab2,29496
   0980b,,29,295b6,098e2,4b33,9929,a7,c2,fe,4bce,29b30,09b12,c40,fd,4cce,ed,9d67,2a0ce,04cf8,2a105,20e,91
   09ebb,4d56,9ef9,e,f05,f,16,3b,2a600"

/-- Runs of combining marks of one class: `300-314=e6` are the marks from 300 to 314, of class e6. -/
def combiningTable : Table Run := Table.runs
  "300-14=e6 5=e8 6-9=dc a=e8 b=d8 c-20=dc 1-2=ca 3-6=dc 7-8=ca 9-33=dc 4-8=1 9-c=dc d-44=e6 5=f0 6=e6
   7-9=dc a-c=e6 d-e=dc 50-2=e6 3-6=dc 7=e6 8=e8 9-a=dc b=e6 c=e9 d-e=ea f=e9 60-1=ea 2=e9 3-f=e6
   483-7=e6 591=dc 2-5=e6 6=dc 7-9=e6 a=de b=dc c-a1=e6 2-7=dc 8-9=e6 a=dc b-c=e6 d=de e=e4 f=e6 b0=a
   1=b 2=c 3=d 4=e 5=f 6=10 7=11 8=12 9-a=13 b=14 c=15 d=16 f=17 c1=18 2=19 4=e6 5=dc 7=12 610-7=e6 8=1e
   9=1f a=20 4b=1b c=1c d=1d e=1e f=1f 50=20 1=21 2=22 3-4=e6 5-6=dc 7-b=e6 c=dc d-e=e6 f=dc 70=23
   d6-c=e6 f-e2=e6 3=dc 4=e6 7-8=e6 a=dc b-c=e6 d=dc 711=24 30=e6 1=dc 2-3=e6 4=dc 5-6=e6 7-9=dc a=e6
   b-c=dc d=e6 e=dc f-41=e6 2=dc 3=e6 4=dc 5=e6 6=dc 7=e6 8=dc 9-a=e6 eb-f1=e6 2=dc 3=e6 d=dc 816-9=e6
   b-23=e6 5-7=e6 9-d=e6 59-b=dc 98=e6 9-b=dc c-f=e6 ca-e=e6 f-d3=dc 4-e1=e6 3=dc 4-5=e6 6=dc 7-8=e6
   9=dc a-c=e6 d-f=dc f0=1b 1=1c 2=1d 3-5=e6 6=dc 7-8=e6 9-a=dc b-f=e6 93c=7 4d=9 51=e6 2=dc 3-4=e6 bc=7
   cd=9 fe=e6 a3c=7 4d=9 bc=7 cd=9 b3c=7 4d=9 cd=9 c3c=7 4d=9 55=54 6=5b bc=7 cd=9 d3b-c=9 4d=9 ca=9
   e38-9=67 a=9 48-b=6b b8-9=76 a=9 c8-b=7a f18-9=dc 35=dc 7=dc 9=d8 71=81 2=82 4=84 a-d=82 80=82 2-3=e6
   4=9 6-7=e6 c6=dc 1037=7 9-a=9 8d=dc 35d-f=e6 714-5=9 34=9 d2=9 d=e6 8a9=e4 939=de a=e6 b=dc a17=e6
   8=dc 60=9 75-c=e6 f=dc b0-4=e6 5-a=dc b-c=e6 d=dc f-c0=dc 1-2=e6 3-4=dc 5-9=e6 a=dc b-e=e6 b34=7 44=9
   6b=e6 c=dc d-73=e6 aa-b=9 e6=7 f2-3=9 c37=7 d0-2=e6 4=1 5-9=dc a-b=e6 c-f=dc e0=e6 2-8=1 d=dc f4=e6
   8-9=e6 dc0-1=e6 2=dc 3-9=e6 a=dc b-c=e6 d=ea e=d6 f=dc d0=ca 1-f5=e6 6=e8 7-8=e4 9=dc a=da b=e6 c=e9
   d=dc e=e6 f=dc 20d0-1=e6 2-3=1 4-7=e6 8-a=1 b-c=e6 e1=e6 5-6=1 7=e6 8=dc 9=e6 a-b=1 c-f=dc f0=e6
   cef-f1=e6 d7f=9 e0-ff=e6 302a=da b=e4 c=e8 d=de e-f=e0 99-a=8 a66f=e6 74-d=e6 9e-f=e6 f0-1=e6 806=9
   2c=9 c4=9 e0-f1=e6 92b-d=dc 53=9 b3=7 c0=9 ab0=e6 2-3=e6 4=dc 7-8=e6 e-f=e6 c1=e6 f6=9 bed=9 fb1e=1a
   e20-6=e6 7-d=dc e-f=e6 101fd=dc 2e0=dc 376-a=e6 a0d=dc f=e6 38=e6 9=1 a=dc f=9 e5=e6 6=dc d24-7=e6
   eab-c=e6 f46-7=dc 8-a=e6 b=dc c=e6 d-50=dc 82=e6 3=dc 4=e6 5=dc 1046=9 70=9 f=9 b9=9 a=7 100-2=e6
   33-4=9 73=7 c0=9 a=7 235=9 6=7 e9=7 a=9 33b-c=7 4d=9 66-c=e6 70-4=e6 442=9 6=7 5e=e6 c2=9 3=7 5bf=9
   c0=7 63f=9 b6=9 7=7 72b=9 839=9 a=7 93d-e=9 43=7 e0=9 a34=9 47=9 99=9 c3f=9 d42=7 4-5=9 97=9 6af0-4=1
   b30-6=e6 ff0-1=6 bc9e=1 d165-6=d8 7-9=1 d=e2 e-72=d8 b-82=dc 5-9=e6 a-b=dc aa-d=e6 242-4=e6 e000-6=e6
   8-18=e6 b-21=e6 3-4=e6 6-a=e6 130-6=e6 2ae=e6 ec-f=e6 8d0-6=dc 944-9=e6 a=7"

/-- The characters of identifiers that are composed of a starter and a mark, Hangul syllables apart. -/
def compositeTable : Table Nat := Table.ranges
  "c0-5 7-f d1-6 9-d e0-5 7-f f1-6 9-d f-10f 12-25 8-30 4-7 9-e 43-8 c-51 4-65 8-7e a0-1 f-b0 cd-dc e-e3
   6-f0 4-5 8-21b e-f 26-33 386 8-a c e-90 aa-b0 ca-e 400-1 3 7 c-e 19 39 50-1 3 7 c-e 76-7 c1-2 d0-3 6-7
   a-f e2-7 a-f5 8-9 622-6 c0 2 d3 929 31 4 cb-c b48 b-c 94 ca-c c48 c0 7-8 a-b d4a-c da c-e 1026 b06 8 a
   c e 12 3b d 40-1 3 e00-99 a0-f9 f00-15 8-d 20-45 8-d 50-7 9 b d f-70 2 4 6 8 a c 80-b4 6-a c c2-4 6-8 a
   c d0-2 6-a e0-2 4-a c f2-4 6-8 a c 304c e 50 2 4 6 8 a c e 60 2 5 7 9 70-1 3-4 6-7 9-a c-d 94 e ac e b0
   2 4 6 8 a c e c0 2 5 7 9 d0-1 3-4 6-7 9-a c-d f4 7-a e 1109a c ab 12e-f 34b-c 4bb-c e 5ba-b 938"

/-- The canonical combining class of a character; starters have class 0. -/
def combiningClass (c : Char) : Nat :=
  if c.toNat < 128 then 0
  else
    match combiningTable.floor? c.toNat with
    | some (_, run) => if c.toNat ≤ run.last then run.image else 0
    | none => 0

/-- The jamo of a Hangul syllable. -/
def hangulJamo (n : Nat) : List Char :=
  let index := n - 0xac00
  let lead := Char.ofNat (0x1100 + index / 588)
  let vowel := Char.ofNat (0x1161 + index % 588 / 28)
  if index % 28 = 0 then [lead, vowel] else [lead, vowel, Char.ofNat (0x11a7 + index % 28)]

/-- The full compatibility decomposition of one character. -/
def decomposeChar (c : Char) : List Char :=
  if c.toNat < 128 then [c]
  else if 0xac00 ≤ c.toNat && c.toNat ≤ 0xd7a3 then hangulJamo c.toNat
  else (decompositionTable.image? c.toNat).getD [c]

/-- Puts a mark behind those of a sorted run whose class is not higher. -/
def insertMark (mark : Char) : List Char → List Char
  | [] => [mark]
  | c :: rest =>
    if combiningClass c ≤ combiningClass mark then c :: insertMark mark rest else mark :: c :: rest

/-- Sorts each run of marks by combining class and keeps the order within a class. `run` holds the marks
since the last starter. -/
def orderMarks (run : List Char) : List Char → List Char
  | [] => run
  | c :: rest =>
    if combiningClass c = 0 then run ++ c :: orderMarks [] rest else orderMarks (insertMark c run) rest

/-- The compatibility decomposition of a text, with marks in canonical order. -/
def decompose (s : List Char) : List Char :=
  orderMarks [] (s.flatMap decomposeChar)

/-- The composites with their decompositions. -/
def composites : List (List Char × Char) :=
  compositeTable.toList.flatMap fun (first, last) =>
    (List.range' first (last + 1 - first)).map fun n => (decomposeChar (Char.ofNat n), Char.ofNat n)

/-- The composite of two characters, if the standard has one. -/
def composite? (a b : Char) : Option Char :=
  let m := a.toNat
  let n := b.toNat
  if 0x1100 ≤ m && m ≤ 0x1112 && 0x1161 ≤ n && n ≤ 0x1175 then
    some (Char.ofNat (0xac00 + (m - 0x1100) * 588 + (n - 0x1161) * 28))
  else if 0xac00 ≤ m && m ≤ 0xd7a3 && (m - 0xac00) % 28 = 0 && 0x11a8 ≤ n && n ≤ 0x11c2 then
    some (Char.ofNat (m + (n - 0x11a7)))
  else composites.lookup (decomposeChar a ++ [b])

/-- Composes the characters after a starter with it. `kept` holds, last first, the marks that stayed, and
a mark is blocked if one of the same or a higher class stayed before it. -/
def composeAfter (starter : Char) (kept : List Char) : List Char → List Char
  | [] => starter :: kept.reverse
  | c :: rest =>
    let blocked : Bool := match kept with
      | last :: _ => combiningClass c ≤ combiningClass last
      | [] => false
    match if blocked then none else composite? starter c with
    | some joined => composeAfter joined kept rest
    | none =>
      if combiningClass c = 0 then starter :: kept.reverse ++ composeAfter c [] rest
      else composeAfter starter (c :: kept) rest

/-- Canonical composition of a decomposed text. Marks before the first starter stay as they are. -/
def compose (s : List Char) : List Char :=
  let marks := s.takeWhile (fun c => combiningClass c ≠ 0)
  match s.dropWhile (fun c => combiningClass c ≠ 0) with
  | [] => marks
  | starter :: rest => marks ++ composeAfter starter [] rest

/-- The compatibility normal form of an identifier; an ASCII text is its own. -/
def normalize (s : String) : String :=
  if s.toList.all (fun c => c.toNat < 128) then s else String.ofList (compose (decompose s.toList))

end CodeAudit.Text
